import SyncPrimitives.Concurrency.Polling
import SyncPrimitives.MutexV1.Exclusion
import SyncPrimitives.MutexV1.WaiterQueue

/-!
# The orderings of the queueing mutex

`Call.access` gives every step the ordering written in the source. The mutex has three cells that
are not atomic: the data, the flag `poisoned`, and the queue of thread handles. The first two are
behind the word `state` (`step_passage`), the third behind `queue_is_accessed`
(`step_queuePassage`), and each word excludes by an earlier result (`owned_of_run`, `sectioned`).

`poisoned` is read by `lock` and `try_lock` after they have acquired, and written by the drop of a
guard in a panicking thread before it releases. `clear_poison` writes it and `is_poisoned` reads it
without looking at the word, so the result on `poisoned` is about the runs in which only the owner
of a guard calls them; `clearPoison_races` and `isPoisoned_races` are runs in which another thread
does. `systemWithPolls` has the mutex with the calls of `is_poisoned`.
-/

set_option autoImplicit false
set_option relaxedAutoImplicit false

namespace SyncPrimitives.MutexV1

open Concurrency Memory MutexCommon

/-- The atomic words of the mutex. -/
inductive Word
  | state
  | queueIsAccessed
  deriving DecidableEq

section Model

variable {Tid : Type}

/-- The access of a step to the two words. -/
def Call.access (shared : Shared Tid) : Call Tid → Choice → Access Word
  | .lock .loadOwner, .go => .load .state false
  | .lock (.load _), .go => .load .state false
  | .lock (.compareExchange _), .go =>
    if shared.state = 0 then .rmw .state true false else .load .state false
  | .lock (.compareExchange _), .spurious => .load .state false
  | .lock (.enqueue .load), .go => .load .queueIsAccessed false
  | .lock (.enqueue .compareExchange), .go =>
    if shared.queueIsAccessed then .load .queueIsAccessed false
    else .rmw .queueIsAccessed true false
  | .lock (.enqueue .compareExchange), .spurious => .load .queueIsAccessed false
  | .lock (.enqueue .store), .go => .store .queueIsAccessed true
  | .tryLock .loadOwner, .go => .load .state false
  | .tryLock .compareExchange, .go =>
    if shared.state = 0 then .rmw .state true false else .load .state false
  | .drop .store, .go => .store .state true
  | .drop (.dequeue .load), .go => .load .queueIsAccessed false
  | .drop (.dequeue .compareExchange), .go =>
    if shared.queueIsAccessed then .load .queueIsAccessed false
    else .rmw .queueIsAccessed true false
  | .drop (.dequeue .compareExchange), .spurious => .load .queueIsAccessed false
  | .drop (.dequeue (.store _)), .go => .store .queueIsAccessed true
  | _, _ => .none

/-- The access of a step of a thread. -/
def access (shared : Shared Tid) (th : Thread Tid) (choice : Choice) : Access Word :=
  th.call.access shared choice

/-- What a step of the mutex does to `poisoned`; a call of `is_poisoned` is a step of
`systemWithPolls`, and its touch stands in `Polled.touch`. -/
def Call.poisonedTouch : Call Tid → Choice → Touch
  | .acquired, .go => .read
  | .idle, .drop true => .write
  | .idle, .clearPoison => .write
  | _, _ => .none

/-- The same for a thread. -/
def poisonedTouch (_ : Shared Tid) (th : Thread Tid) (choice : Choice) : Touch :=
  th.call.poisonedTouch choice

/-- What a step does to the queue. -/
def Call.queueTouch : Call Tid → Choice → Touch
  | .lock (.enqueue .pushBack), .go => .write
  | .drop (.dequeue .isEmpty), .go => .read
  | .drop (.dequeue .popFront), .go => .write
  | _, _ => .none

/-- What a step of a thread does to the queue. -/
def queueTouch (_ : Shared Tid) (th : Thread Tid) (choice : Choice) : Touch :=
  th.call.queueTouch choice

/-- One for a thread between setting and clearing `queue_is_accessed`. -/
def Call.accessing (call : Call Tid) : ℕ := min call.remaining 1

end Model

attribute [local simp] Call.access Access.Stores

/-! ### The word `state` -/

section State

variable {Tid : Type} {ids : ThreadIds Tid} {self : Tid} {before after : Shared Tid}
  {th moved : Thread Tid} {choice : Choice} {signal : Signal Tid Addr} {call : Call Tid}

/-- A step that keeps the guards and does not store to `state` is a passage. -/
theorem passage_stay (hcall : th.call = call) (hstore : call ≠ .drop .store)
    (hguards : moved.outstanding = th.guards)
    (haccess : ¬ (call.access before choice).Stores .state) :
    Passage .state th.outstanding moved.outstanding (access before th choice) .none := by
  refine .stay ?_ (fun hne ↦ absurd rfl hne) ?_
  · rw [access, hcall]
    exact haccess
  · rw [outstanding_of_call hcall hstore, hguards]

/-- The acquiring compare-and-exchange. -/
theorem passage_enter (hcall : th.call = call) (hstore : call ≠ .drop .store)
    (haccess : (call.access before choice).Acquires .state) :
    Passage .state th.outstanding th.acquire.outstanding (access before th choice) .none := by
  refine .enter ?_ rfl ?_
  · rw [access, hcall]
    exact haccess
  · rw [outstanding_of_call hcall hstore]
    rfl

theorem enqueue_not_stores {pc : EnqueuePc} :
    ¬ ((Call.lock (.enqueue pc)).access before choice).Stores .state := by
  cases pc <;> cases choice
  all_goals
    simp only [Call.access]
    try split_ifs
    all_goals simp

theorem dequeue_not_stores {pc : DequeuePc Tid} :
    ¬ ((Call.drop (.dequeue pc)).access before choice).Stores .state := by
  cases pc <;> cases choice
  all_goals
    simp only [Call.access]
    try split_ifs
    all_goals simp

theorem lockStep_passage {pc : LockPc} (hcall : th.call = .lock pc)
    (h : lockStep self (ids.get self) before th pc choice = some (after, moved, signal)) :
    Passage .state th.outstanding moved.outstanding (access before th choice) .none := by
  cases pc with
  | enqueue pc =>
    obtain ⟨-, -, hguards, pc', hcall'⟩ : signal = .silent ∧ after.state = before.state ∧
        moved.guards = th.guards ∧ ∃ pc, moved.call = .lock pc := by
      cases choice <;> exact enqueueThreadStep_frame hcall h
    exact passage_stay hcall (by simp) ((outstanding_of_call hcall' (by simp)).trans hguards)
      enqueue_not_stores
  | loadOwner =>
    cases choice <;> simp only [lockStep, reduceCtorEq] at h
    case go =>
      split_ifs at h
      all_goals obtain ⟨-, rfl, -⟩ := quiet_eq_some_iff.mp h
      · exact passage_stay hcall (by simp) rfl id
      · exact passage_stay hcall (by simp) outstanding_spinLoop id
  | load spinCounter =>
    cases choice <;> simp only [lockStep, reduceCtorEq] at h
    case go =>
      split_ifs at h
      all_goals obtain ⟨-, rfl, -⟩ := quiet_eq_some_iff.mp h
      · exact passage_stay hcall (by simp) rfl id
      · exact passage_stay hcall (by simp) outstanding_spinLoop id
  | compareExchange spinCounter =>
    cases choice <;> simp only [lockStep, reduceCtorEq] at h
    case go =>
      split_ifs at h with hfree
      all_goals obtain ⟨-, rfl, -⟩ := quiet_eq_some_iff.mp h
      · refine passage_enter hcall (by simp) ?_
        rw [Call.access, if_pos hfree]
        exact ⟨rfl, rfl⟩
      · refine passage_stay hcall (by simp) outstanding_spinLoop ?_
        rw [Call.access, if_neg hfree]
        exact id
    case spurious =>
      obtain ⟨-, rfl, -⟩ := quiet_eq_some_iff.mp h
      exact passage_stay hcall (by simp) outstanding_spinLoop id

theorem tryLockStep_passage {pc : TryLockPc} (hcall : th.call = .tryLock pc)
    (h : tryLockStep (ids.get self) before th pc choice = some (after, moved, signal)) :
    Passage .state th.outstanding moved.outstanding (access before th choice) .none := by
  cases pc <;> cases choice <;> simp only [tryLockStep, reduceCtorEq] at h
  case loadOwner.go =>
    split_ifs at h
    all_goals
      obtain ⟨-, rfl, -⟩ := quiet_eq_some_iff.mp h
      exact passage_stay hcall (by simp) rfl id
  case compareExchange.go =>
    split_ifs at h with hfree
    all_goals obtain ⟨-, rfl, -⟩ := quiet_eq_some_iff.mp h
    · refine passage_enter hcall (by simp) ?_
      rw [Call.access, if_pos hfree]
      exact ⟨rfl, rfl⟩
    · refine passage_stay hcall (by simp) rfl ?_
      rw [Call.access, if_neg hfree]
      exact id

theorem dropStep_passage {pc : DropPc Tid} (hcall : th.call = .drop pc)
    (h : dropStep before th pc choice = some (after, moved, signal)) :
    Passage .state th.outstanding moved.outstanding (access before th choice) .none := by
  cases pc with
  | store =>
    cases choice <;> simp only [dropStep, reduceCtorEq] at h
    case go =>
      obtain ⟨-, rfl, -⟩ := quiet_eq_some_iff.mp h
      refine .leave ?_ rfl ?_
      · rw [access, hcall]
        exact ⟨rfl, rfl⟩
      · show th.guards + 1 = th.outstanding
        rw [Thread.outstanding, hcall]
  | dequeue pc =>
    obtain ⟨-, hguards, hcall'⟩ : after.state = before.state ∧ moved.guards = th.guards ∧
        moved.call ≠ .drop .store := by
      cases choice <;> exact dequeueThreadStep_frame hcall h
    exact passage_stay hcall (by simp) ((outstanding_of_call rfl hcall').trans hguards)
      dequeue_not_stores

theorem idleStep_passage (hcall : th.call = .idle)
    (h : idleStep before th choice = some (after, moved, signal)) :
    Passage .state th.outstanding moved.outstanding (access before th choice) .none := by
  cases choice with
  | call method =>
    cases method
    all_goals
      obtain ⟨-, rfl, -⟩ := quiet_eq_some_iff.mp h
      exact passage_stay hcall (by simp) rfl id
  | drop panicking =>
    simp only [idleStep] at h
    split_ifs at h with hguard
    obtain ⟨-, rfl, -⟩ := quiet_eq_some_iff.mp h
    exact passage_stay hcall (by simp) (Nat.sub_add_cancel hguard) id
  | clearPoison =>
    obtain ⟨-, rfl, -⟩ := quiet_eq_some_iff.mp h
    exact passage_stay hcall (by simp) (outstanding_of_call hcall (by simp)) id
  | go => cases h
  | spurious => cases h

/-- Every step of a thread is a passage of `state`: a guard is taken by an acquiring
compare-and-exchange and given up by the releasing store. -/
theorem step_passage
    (h : step self (ids.get self) before th choice = some (after, moved, signal)) :
    Passage .state th.outstanding moved.outstanding (access before th choice) .none := by
  unfold step at h
  split at h
  case h_1 hcall => exact idleStep_passage hcall h
  case h_2 hcall => exact lockStep_passage hcall h
  case h_3 hcall => exact tryLockStep_passage hcall h
  case h_4 hcall =>
    split_ifs at h with hgo
    obtain ⟨-, rfl, -⟩ := quiet_eq_some_iff.mp h
    exact passage_stay hcall (by simp) rfl (by subst hgo; exact id)
  case h_5 hcall => exact dropStep_passage hcall h

end State

/-! ### The word `queue_is_accessed` -/

section Queue

variable {Tid : Type} {self : Tid} {currentThread : ℕ} {before after : Shared Tid}
  {th moved : Thread Tid} {choice : Choice} {signal : Signal Tid Addr} {call : Call Tid}

/-- A step that enters or leaves no section and does not store to the flag is a passage. -/
theorem queuePassage_stay (hcall : th.call = call) (hsame : moved.call.accessing = call.accessing)
    (haccess : ¬ (call.access before choice).Stores .queueIsAccessed)
    (htouch : call.queueTouch choice ≠ .none → 0 < call.accessing) :
    Passage .queueIsAccessed th.call.accessing moved.call.accessing (access before th choice)
      (queueTouch before th choice) := by
  rw [access, queueTouch, hcall]
  exact .stay haccess htouch hsame

theorem enqueueThreadStep_queuePassage {pc : EnqueuePc} (hcall : th.call = .lock (.enqueue pc))
    (h : enqueueThreadStep self before th pc choice = some (after, moved, signal)) :
    Passage .queueIsAccessed th.call.accessing moved.call.accessing (access before th choice)
      (queueTouch before th choice) := by
  cases pc <;> cases choice <;> simp only [enqueueThreadStep, reduceCtorEq] at h
  case compareExchange.go =>
    split_ifs at h with hflag
    all_goals obtain ⟨-, rfl, -⟩ := quiet_eq_some.mp h
    · refine queuePassage_stay hcall rfl ?_ (fun hne ↦ absurd rfl hne)
      rw [Call.access, if_pos hflag]
      exact id
    · rw [access, queueTouch, hcall, Call.access, if_neg hflag]
      exact .enter ⟨rfl, rfl⟩ rfl rfl
  case pushBack.go =>
    obtain ⟨-, rfl, -⟩ := quiet_eq_some.mp h
    exact queuePassage_stay hcall rfl id fun _ ↦ Nat.one_pos
  case store.go =>
    obtain ⟨-, rfl, -⟩ := quiet_eq_some.mp h
    rw [access, queueTouch, hcall]
    exact .leave ⟨rfl, rfl⟩ rfl rfl
  all_goals try split_ifs at h
  all_goals obtain ⟨-, rfl, -⟩ := quiet_eq_some.mp h
  all_goals
    first
    | exact queuePassage_stay hcall rfl id fun hne ↦ absurd rfl hne
    | exact queuePassage_stay hcall (congrArg Call.accessing hcall) id fun hne ↦ absurd rfl hne

theorem dequeueThreadStep_queuePassage {pc : DequeuePc Tid}
    (hcall : th.call = .drop (.dequeue pc))
    (h : dequeueThreadStep before th pc choice = some (after, moved, signal)) :
    Passage .queueIsAccessed th.call.accessing moved.call.accessing (access before th choice)
      (queueTouch before th choice) := by
  cases pc with
  | load =>
    cases choice <;> simp only [dequeueThreadStep, reduceCtorEq] at h
    case go =>
      split_ifs at h
      all_goals obtain ⟨-, rfl, -⟩ := quiet_eq_some.mp h
      · exact queuePassage_stay hcall (congrArg Call.accessing hcall) id fun hne ↦ absurd rfl hne
      · exact queuePassage_stay hcall rfl id fun hne ↦ absurd rfl hne
  | compareExchange =>
    cases choice <;> simp only [dequeueThreadStep, reduceCtorEq] at h
    case go =>
      split_ifs at h with hflag
      all_goals obtain ⟨-, rfl, -⟩ := quiet_eq_some.mp h
      · refine queuePassage_stay hcall rfl ?_ (fun hne ↦ absurd rfl hne)
        rw [Call.access, if_pos hflag]
        exact id
      · rw [access, queueTouch, hcall, Call.access, if_neg hflag]
        exact .enter ⟨rfl, rfl⟩ rfl rfl
    case spurious =>
      obtain ⟨-, rfl, -⟩ := quiet_eq_some.mp h
      exact queuePassage_stay hcall rfl id fun hne ↦ absurd rfl hne
  | isEmpty =>
    cases choice <;> simp only [dequeueThreadStep, reduceCtorEq] at h
    case go =>
      split_ifs at h
      all_goals
        obtain ⟨-, rfl, -⟩ := quiet_eq_some.mp h
        exact queuePassage_stay hcall rfl id fun _ ↦ Nat.one_pos
  | popFront =>
    cases choice <;> simp only [dequeueThreadStep, reduceCtorEq] at h
    case go =>
      obtain ⟨-, rfl, -⟩ := quiet_eq_some.mp h
      exact queuePassage_stay hcall rfl id fun _ ↦ Nat.one_pos
  | store popped =>
    cases popped <;> cases choice <;> simp only [dequeueThreadStep, reduceCtorEq] at h
    all_goals
      obtain ⟨-, rfl, -⟩ := quiet_eq_some.mp h
      rw [access, queueTouch, hcall]
      exact .leave ⟨rfl, rfl⟩ rfl rfl
  | unpark handle =>
    cases choice <;> simp only [dequeueThreadStep, reduceCtorEq] at h
    case go =>
      obtain ⟨-, rfl, -⟩ := by simpa using h
      exact queuePassage_stay hcall rfl id fun hne ↦ absurd rfl hne

/-- Every step of a thread is a passage of `queue_is_accessed`: the section is entered by an
acquiring compare-and-exchange and left by the releasing store, and the queue is touched inside. -/
theorem step_queuePassage
    (h : step self currentThread before th choice = some (after, moved, signal)) :
    Passage .queueIsAccessed th.call.accessing moved.call.accessing (access before th choice)
      (queueTouch before th choice) := by
  have houtside {call : Call Tid} (hcall : th.call = call) (hnone : call.remaining = 0)
      (hmoved : moved.call.remaining = 0)
      (haccess : ¬ (call.access before choice).Stores .queueIsAccessed)
      (htouch : call.queueTouch choice = .none) :
      Passage .queueIsAccessed th.call.accessing moved.call.accessing (access before th choice)
        (queueTouch before th choice) :=
    queuePassage_stay hcall (by rw [Call.accessing, Call.accessing, hmoved, hnone]) haccess
      fun hne ↦ absurd htouch hne
  unfold step at h
  split at h
  case h_1 hcall =>
    cases choice with
    | call method =>
      cases method
      all_goals
        obtain ⟨-, rfl, -⟩ := quiet_eq_some.mp h
        exact houtside hcall rfl rfl id rfl
    | drop panicking =>
      simp only [idleStep] at h
      split_ifs at h
      obtain ⟨-, rfl, -⟩ := quiet_eq_some.mp h
      exact houtside hcall rfl rfl id rfl
    | clearPoison =>
      obtain ⟨-, rfl, -⟩ := quiet_eq_some.mp h
      exact houtside hcall rfl (by rw [hcall]; rfl) id rfl
    | go => cases h
    | spurious => cases h
  case h_2 pc hcall =>
    cases pc with
    | enqueue pc => cases choice <;> exact enqueueThreadStep_queuePassage hcall h
    | loadOwner =>
      cases choice <;> simp only [lockStep, reduceCtorEq] at h
      case go =>
        split_ifs at h
        all_goals obtain ⟨-, rfl, -⟩ := quiet_eq_some.mp h
        · exact houtside hcall rfl rfl (by simp) rfl
        · exact houtside hcall rfl remaining_spinLoop (by simp) rfl
    | load spinCounter =>
      cases choice <;> simp only [lockStep, reduceCtorEq] at h
      case go =>
        split_ifs at h
        all_goals obtain ⟨-, rfl, -⟩ := quiet_eq_some.mp h
        · exact houtside hcall rfl rfl (by simp) rfl
        · exact houtside hcall rfl remaining_spinLoop (by simp) rfl
    | compareExchange spinCounter =>
      have haccess : ¬ ((Call.lock (.compareExchange spinCounter)).access before choice).Stores
          .queueIsAccessed := by
        cases choice <;> simp only [Call.access] <;> try split_ifs
        all_goals simp
      cases choice <;> simp only [lockStep, reduceCtorEq] at h
      case go =>
        split_ifs at h
        all_goals obtain ⟨-, rfl, -⟩ := quiet_eq_some.mp h
        · exact houtside hcall rfl rfl haccess rfl
        · exact houtside hcall rfl remaining_spinLoop haccess rfl
      case spurious =>
        obtain ⟨-, rfl, -⟩ := quiet_eq_some.mp h
        exact houtside hcall rfl remaining_spinLoop haccess rfl
  case h_3 pc hcall =>
    have haccess : ¬ ((Call.tryLock pc).access before choice).Stores .queueIsAccessed := by
      cases pc <;> cases choice <;> simp only [Call.access] <;> try split_ifs
      all_goals simp
    cases pc <;> cases choice <;> simp only [tryLockStep, reduceCtorEq] at h
    all_goals
      split_ifs at h
      all_goals
        obtain ⟨-, rfl, -⟩ := quiet_eq_some.mp h
        exact houtside hcall rfl rfl haccess rfl
  case h_4 hcall =>
    split_ifs at h with hgo
    obtain ⟨-, rfl, -⟩ := quiet_eq_some.mp h
    subst hgo
    exact houtside hcall rfl rfl id rfl
  case h_5 pc hcall =>
    cases pc with
    | store =>
      cases choice <;> simp only [dropStep, reduceCtorEq] at h
      case go =>
        obtain ⟨-, rfl, -⟩ := quiet_eq_some.mp h
        exact houtside hcall rfl rfl (by simp) rfl
    | dequeue pc => cases choice <;> exact dequeueThreadStep_queuePassage hcall h

end Queue

/-! ### Every run -/

section Runs

variable {Tid α : Type} [DecidableEq Tid] [Fintype Tid] {ids : ThreadIds Tid} {data : α}

/-- No run has a data race on the data. -/
theorem data_raceFree
    {x : Pool Tid (Guarded.Shared (Shared Tid) α) (Guarded.Local (Thread Tid) α) ×
      Memory.Trace Tid Word}
    (h : (tracing (systemWithData ids data) (stepEvent (Guarded.access access)
      Guarded.touch)).Reachable x) : RaceFree x.2 := by
  refine Guarded.raceFree Thread.outstanding .state (fun _ ↦ rfl)
    (fun _ ↦ rfl) (fun _ ↦ outstanding_unpark) (fun p hrun t u ht ↦ ?_) (fun th howns ↦ ?_)
    (fun _ _ _ _ _ _ _ hstep ↦ step_passage hstep) h
  · have howned := owned_of_run hrun
    exact ⟨howned.outstanding_eq_one ht, fun hu ↦ howned.eq_of_outstanding ht hu⟩
  · exact Nat.add_pos_left (of_decide_eq_true howns) _

/-- The mutex with the method `is_poisoned`, which any thread can call between two calls. -/
def systemWithPolls {Tid : Type} [DecidableEq Tid] [Fintype Tid] (ids : ThreadIds Tid) :
    System (Pool Tid (Shared Tid) (Polled.Local (Thread Tid))) (Label Tid (Polled.Choice Choice)) :=
  ((machine ids).polled guards Shared.poisoned).system (Polled.start (new Tid))

/-- Only the owner of a guard calls `clear_poison`. -/
def ClearsOwn (p : Pool Tid (Shared Tid) (Thread Tid)) (t : Tid) (choice : Choice) : Prop :=
  choice = .clearPoison → 0 < (p.threads t).guards

instance (p : Pool Tid (Shared Tid) (Thread Tid)) (t : Tid) (choice : Choice) :
    Decidable (ClearsOwn p t choice) :=
  inferInstanceAs (Decidable (_ → _))

/-- A thread that touches `poisoned` under `ClearsOwn` is inside, and its step is no passage of the
word. -/
theorem inside_of_poisonedTouch {p : Pool Tid (Shared Tid) (Thread Tid)} {t : Tid}
    {choice : Choice} {after : Shared Tid} {moved : Thread Tid} {signal : Signal Tid Addr}
    (hrun : (system ids).Reachable p) (hclears : ClearsOwn p t choice)
    (hstep : step t (ids.get t) p.shared (p.threads t) choice = some (after, moved, signal))
    (htouch : (p.threads t).call.poisonedTouch choice ≠ .none) :
    0 < (p.threads t).outstanding ∧ moved.outstanding = (p.threads t).outstanding := by
  unfold step at hstep
  split at hstep
  case h_1 hcall =>
    rw [outstanding_of_call hcall (by simp)]
    rw [hcall] at htouch
    cases choice with
    | drop panicking =>
      simp only [idleStep] at hstep
      split_ifs at hstep with hguard
      obtain ⟨-, rfl, -⟩ := quiet_eq_some_iff.mp hstep
      exact ⟨hguard, Nat.sub_add_cancel hguard⟩
    | clearPoison =>
      obtain ⟨-, rfl, -⟩ := quiet_eq_some_iff.mp hstep
      exact ⟨hclears rfl, outstanding_of_call hcall (by simp)⟩
    | _ => exact absurd rfl htouch
  case h_4 hcall =>
    split_ifs at hstep
    obtain ⟨-, rfl, -⟩ := quiet_eq_some_iff.mp hstep
    rw [outstanding_of_call hcall (by simp)]
    exact ⟨guards_pos_of_acquired hrun hcall, rfl⟩
  all_goals
    rename_i hcall
    rw [hcall] at htouch
    exact absurd rfl htouch

/-- No run in which only owners clear and read the flag has a data race on `poisoned`. -/
theorem poisoned_raceFree
    {x : Pool Tid (Shared Tid) (Polled.Local (Thread Tid)) × Memory.Trace Tid Word}
    (h : (tracing (systemWithPolls ids) (stepEvent (Polled.access access)
      (Polled.touch poisonedTouch))).ReachableWhen
        (fun x label ↦ Polled.ByOwners guards ClearsOwn x.1 label) x) : RaceFree x.2 := by
  refine Polled.raceFree_of_exclusion Thread.outstanding .state (fun _ ↦ rfl) (fun _ ↦ rfl)
    (fun _ ↦ outstanding_unpark) (fun p hrun t u ht ↦ ?_) (fun th howns ↦ ?_) ?_ h
  · have howned := owned_of_run hrun
    exact ⟨howned.outstanding_eq_one ht, fun hu ↦ howned.eq_of_outstanding ht hu⟩
  · exact Nat.add_pos_left (of_decide_eq_true howns) _
  · intro p t choice moved after signal hrun hclears hstep
    exact (step_passage hstep).of_none fun htouch ↦
      inside_of_poisonedTouch hrun hclears hstep htouch

/-- No run has a data race on the queue. -/
theorem queue_raceFree
    {x : Pool Tid (Shared Tid) (Thread Tid) × Memory.Trace Tid Word}
    (h : (tracing (system ids) (stepEvent access queueTouch)).Reachable x) : RaceFree x.2 := by
  have hinside (th : Thread Tid) (hpos : 0 < th.call.accessing) :
      th.inside ∧ th.call.accessing = 1 := by
    rw [Call.accessing] at hpos ⊢
    exact ⟨(lt_min_iff.mp hpos).1, by omega⟩
  refine raceFree_of_exclusion (M := machine ids) (fun th : Thread Tid ↦ th.call.accessing)
    .queueIsAccessed (fun _ _ ↦ True) (fun _ ↦ rfl) (fun _ ↦ rfl) (fun th ↦ ?_)
    (fun p hrun t u ht ↦ ?_) ?_ h
  · show (unpark th).call.accessing = th.call.accessing
    rw [Call.accessing, Call.accessing, remaining_unpark]
  · obtain ⟨hin, hone⟩ := hinside _ ht
    have hsectioned : Sectioned p := sectioned (reachable_queueSystem hrun)
    exact ⟨hone, fun hu ↦ hsectioned.alone t u hin (hinside _ hu).1⟩
  · intro p label moved after signal _ _ hstep
    exact step_queuePassage hstep

/-- None of the three cells has a data race: the data and the queue in no run, and `poisoned` in no
run in which `clear_poison` and `is_poisoned` are called by owners only. -/
theorem mutex_cells_raceFree (ids : ThreadIds Tid) (data : α) :
    (∀ x, (tracing (systemWithData ids data) (stepEvent (Guarded.access access)
        Guarded.touch)).Reachable x → RaceFree x.2) ∧
      (∀ x, (tracing (system ids) (stepEvent access queueTouch)).Reachable x → RaceFree x.2) ∧
      ∀ x, (tracing (systemWithPolls ids) (stepEvent (Polled.access access)
          (Polled.touch poisonedTouch))).ReachableWhen
        (fun x label ↦ Polled.ByOwners guards ClearsOwn x.1 label) x → RaceFree x.2 :=
  ⟨fun _ ↦ data_raceFree, fun _ ↦ queue_raceFree, fun _ ↦ poisoned_raceFree⟩

/-- `mutex_cells_raceFree` on runs of two threads: both add to the data; thread 1 pushes its handle,
and the drop of thread 0 pops it; and thread 0 drops its guard in a panic, whereupon thread 1
acquires, calls `is_poisoned` and clears the flag. -/
theorem mutex_cells_raceFree_two_threads :
    (∃ x : Pool (Fin 2) (Guarded.Shared (Shared (Fin 2)) ℕ) (Guarded.Local (Thread (Fin 2)) ℕ) ×
        Memory.Trace (Fin 2) Word, x.1.shared.data = 12 ∧ RaceFree x.2) ∧
      (∃ x : Pool (Fin 2) (Shared (Fin 2)) (Thread (Fin 2)) × Memory.Trace (Fin 2) Word,
        (x.1.threads 0).call = .drop (.dequeue (.store (some 1))) ∧ RaceFree x.2) ∧
      ∃ x : Pool (Fin 2) (Shared (Fin 2)) (Polled.Local (Thread (Fin 2))) ×
          Memory.Trace (Fin 2) Word,
        (x.1.shared.poisoned = false ∧ (x.1.threads 1).answer = some true) ∧ RaceFree x.2 := by
  obtain ⟨hdata, hqueue, hpoisoned⟩ := mutex_cells_raceFree twoThreadIds 5
  obtain ⟨x, hrun, hx⟩ := System.exists_reachableWhen_of_exec
    (M := tracing (systemWithData twoThreadIds 5)
      (stepEvent (Guarded.access access) Guarded.touch)) (fun _ _ ↦ True)
    (P := fun x ↦ x.1.shared.data = 12)
    ([⟨0, .lock (.call .lock), none⟩] ++ List.replicate 4 ⟨0, .lock .go, none⟩ ++
      [⟨0, .load, none⟩, ⟨0, .store (· + 3), none⟩, ⟨0, .lock (.drop false), none⟩] ++
      List.replicate 5 ⟨0, .lock .go, none⟩ ++
      [⟨1, .lock (.call .lock), none⟩] ++ List.replicate 4 ⟨1, .lock .go, none⟩ ++
      [⟨1, .load, none⟩, ⟨1, .store (· + 4), none⟩]) (by decide)
  obtain ⟨y, hrun', hy⟩ := System.exists_reachableWhen_of_exec
    (M := tracing (system twoThreadIds) (stepEvent access queueTouch)) (fun _ _ ↦ True)
    (P := fun y ↦ (y.1.threads 0).call = .drop (.dequeue (.store (some 1))))
    ([⟨0, .call .lock, none⟩] ++ List.replicate 4 ⟨0, .go, none⟩ ++
      [⟨1, .call .lock, none⟩] ++ List.replicate 106 ⟨1, .go, none⟩ ++
      [⟨0, .drop false, none⟩] ++ List.replicate 5 ⟨0, .go, none⟩) (by decide +kernel)
  obtain ⟨z, hrun'', hz⟩ := System.exists_reachableWhen_of_exec
    (M := tracing (systemWithPolls twoThreadIds) (stepEvent (Polled.access access)
      (Polled.touch poisonedTouch))) (fun x label ↦ Polled.ByOwners guards ClearsOwn x.1 label)
    (P := fun z ↦ z.1.shared.poisoned = false ∧ (z.1.threads 1).answer = some true)
    ([⟨0, .lock (.call .lock), none⟩] ++ List.replicate 4 ⟨0, .lock .go, none⟩ ++
      [⟨0, .lock (.drop true), none⟩] ++ List.replicate 5 ⟨0, .lock .go, none⟩ ++
      [⟨1, .lock (.call .lock), none⟩] ++ List.replicate 4 ⟨1, .lock .go, none⟩ ++
      [⟨1, .isPoisoned, none⟩, ⟨1, .lock .clearPoison, none⟩]) (by decide)
  exact ⟨⟨x, hx, hdata x hrun⟩, ⟨y, hy, hqueue y hrun'⟩, z, hz, hpoisoned z hrun''⟩

/-- A `clear_poison` by a thread without a guard races with the `lock` of another thread. -/
theorem clearPoison_races :
    ∃ x : Pool (Fin 2) (Shared (Fin 2)) (Thread (Fin 2)) × Memory.Trace (Fin 2) Word,
      (tracing (system twoThreadIds) (stepEvent access poisonedTouch)).Reachable x ∧
        ¬ RaceFree x.2 := by
  obtain ⟨x, hrun, htrace⟩ := System.exists_reachableWhen_of_exec
    (M := tracing (system twoThreadIds) (stepEvent access poisonedTouch)) (fun _ _ ↦ True)
    (P := fun x ↦ x.2 = [⟨0, .none, .none⟩, ⟨0, .load .state false, .none⟩,
      ⟨0, .load .state false, .none⟩, ⟨0, .rmw .state true false, .none⟩, ⟨0, .none, .read⟩,
      ⟨1, .none, .write⟩])
    ([⟨0, .call .lock, none⟩] ++ List.replicate 4 ⟨0, .go, none⟩ ++ [⟨1, .clearPoison, none⟩])
    (by decide)
  refine ⟨x, hrun, fun hfree ↦ ?_⟩
  rw [htrace] at hfree
  have hpath := hfree 4 5 _ _ (by decide) rfl rfl (by decide) ⟨by decide, by decide, .inr rfl⟩
  exact not_happensBefore_of_first rfl (by decide) (fun _ ↦ id) hpath

/-- A call of `is_poisoned` by a thread without a guard races with the drop of a guard in a
panic. -/
theorem isPoisoned_races :
    ∃ x : Pool (Fin 2) (Shared (Fin 2)) (Polled.Local (Thread (Fin 2))) ×
        Memory.Trace (Fin 2) Word,
      (tracing (systemWithPolls twoThreadIds) (stepEvent (Polled.access access)
        (Polled.touch poisonedTouch))).Reachable x ∧ ¬ RaceFree x.2 := by
  obtain ⟨x, hrun, htrace⟩ := System.exists_reachableWhen_of_exec
    (M := tracing (systemWithPolls twoThreadIds) (stepEvent (Polled.access access)
      (Polled.touch poisonedTouch))) (fun _ _ ↦ True)
    (P := fun x ↦ x.2 = [⟨0, .none, .none⟩, ⟨0, .load .state false, .none⟩,
      ⟨0, .load .state false, .none⟩, ⟨0, .rmw .state true false, .none⟩, ⟨0, .none, .read⟩,
      ⟨0, .none, .write⟩, ⟨1, .none, .read⟩])
    ([⟨0, .lock (.call .lock), none⟩] ++ List.replicate 4 ⟨0, .lock .go, none⟩ ++
      [⟨0, .lock (.drop true), none⟩, ⟨1, .isPoisoned, none⟩]) (by decide)
  refine ⟨x, hrun, fun hfree ↦ ?_⟩
  rw [htrace] at hfree
  have hpath := hfree 5 6 _ _ (by decide) rfl rfl (by decide) ⟨by decide, by decide, .inl rfl⟩
  exact not_happensBefore_of_first rfl (by decide) (fun _ ↦ id) hpath

end Runs

end SyncPrimitives.MutexV1
