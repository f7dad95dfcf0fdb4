import SyncPrimitives.Concurrency.Polling
import SyncPrimitives.RwLock.Data
import SyncPrimitives.RwLock.Records

/-!
# The orderings of the read-write lock

The compare-and-exchanges that take a guard acquire `state`; the `fetch_sub` of a reader and the
store of zero of a writer release it. The compare-and-exchange by which a waiting writer sets the
lowest bit is relaxed, and as a read-modify-write it continues the release sequences of the readers
before it. The two counters order nothing that the data needs.

A read of the data is ordered with the writes, and a read of `poisoned` with the drop of a write
guard in a panicking thread. `clear_poison` writes `poisoned` and `is_poisoned` reads it without
looking at the word, so the result on `poisoned` is about the runs in which only the owner of a
write guard calls the former and only the owner of a guard the latter; `systemWithPolls` has the
calls of `is_poisoned`, and `isPoisoned_races` is a run in which another thread calls it.
-/

set_option autoImplicit false
set_option relaxedAutoImplicit false

namespace SyncPrimitives.RwLock

open Concurrency Memory

/-- The atomic words of the lock. -/
inductive Word
  | state
  | writersNumber
  | waitingWriters
  deriving DecidableEq

/-- A compare-and-exchange of `state`. -/
def exchange (shared : Shared) (expected : ℕ) (acquire : Bool) : Access Word :=
  if shared.state = expected then .rmw .state acquire false else .load .state false

/-- The access of a step to the three words; `wait` compares its word in the kernel. -/
def Call.access (shared : Shared) : Call → Choice → Access Word
  | .read .load, .go => .load .state false
  | .read (.wait _ _), .go => .load .state false
  | .read .reload, .go => .load .state false
  | .read (.compareExchange state _), .go => exchange shared state true
  | .read (.compareExchange _ _), .spurious => .load .state false
  | .read .waitMax, .go => .load .state false
  | .write .load, .go => .load .state false
  | .write (.acquire state _), .go => exchange shared state true
  | .write (.setWaiting state _), .go => exchange shared state false
  | .write (.newGuard _), .go => .rmw .waitingWriters true true
  | .write (.loadNumber _), .go => .load .writersNumber true
  | .write (.wait _ _), .go => .load .writersNumber false
  | .write (.dropGuard _), .go => .rmw .waitingWriters true true
  | .tryRead .load, .go => .load .state false
  | .tryRead (.compareExchange state _), .go => exchange shared state true
  | .tryWrite .load, .go => .load .state false
  | .tryWrite (.compareExchange state _), .go => exchange shared state true
  | .dropRead .fetchSub, .go => .rmw .state false true
  | .dropWrite .fetchAdd, .go => .rmw .writersNumber false true
  | .dropWrite .store, .go => .store .state true
  | .dropWrite .loadWaiting, .go => .load .waitingWriters true
  | _, _ => .none

/-- The access of a step of a thread. -/
def access (shared : Shared) (th : Thread) (choice : Choice) : Access Word :=
  th.call.access shared choice

/-- What a step of the lock does to `poisoned`; a call of `is_poisoned` is a step of
`systemWithPolls`, and its touch stands in `Polled.touch`. -/
def Call.poisonedTouch : Call → Choice → Touch
  | .acquired _, .go => .read
  | .idle, .drop .write true => .write
  | .idle, .clearPoison => .write
  | _, _ => .none

/-- The same for a thread. -/
def poisonedTouch (_ : Shared) (th : Thread) (choice : Choice) : Touch :=
  th.call.poisonedTouch choice

section Steps

variable {Tid : Type} {before after : Shared} {th moved : Thread} {signal : Signal Tid Addr}
  {choice : Choice} {call : Call}

/-- The passages of `state` by the guards of a thread. -/
abbrev StatePassage (before : Shared) (th moved : Thread) (choice : Choice) (touch : Touch) :
    Prop :=
  SharedPassage .state (th.outstanding .read) (moved.outstanding .read) (th.outstanding .write)
    (moved.outstanding .write) (access before th choice) touch

theorem exchange_of_eq {expected : ℕ} {acquire : Bool} (h : before.state = expected) :
    exchange before expected acquire = .rmw .state acquire false :=
  if_pos h

theorem exchange_not_stores {expected : ℕ} {acquire : Bool} :
    ¬ (exchange before expected acquire).Stores .state := by
  unfold exchange
  split_ifs
  · exact id
  · exact id

/-- A step that keeps the guards of the thread and overwrites nothing is a passage. -/
theorem passage_stay (hcall : th.call = call) (hdropping : ∀ guard, call.dropping guard = 0)
    (haccess : ¬ (call.access before choice).Stores .state)
    (hguards : ∀ guard, moved.outstanding guard = th.owned guard) :
    StatePassage before th moved choice .none := by
  have hsame (guard : Guard) : moved.outstanding guard = th.outstanding guard := by
    rw [hguards, Thread.outstanding, hcall, hdropping]
    rfl
  refine .stay ?_ (by simp) (by simp) (hsame .read) (hsame .write)
  rw [access, hcall]
  exact haccess

/-- A compare-and-exchange that takes a guard. -/
theorem passage_enter {guard : Guard} (hcall : th.call = call)
    (hdropping : ∀ guard, call.dropping guard = 0)
    (haccess : call.access before choice = .rmw .state true false) :
    StatePassage before th (th.acquire guard) choice .none := by
  have hbefore (guard : Guard) : th.outstanding guard = th.owned guard := by
    rw [Thread.outstanding, hcall, hdropping]
    rfl
  have hentry : access before th choice = .rmw .state true false := by rw [access, hcall, haccess]
  rw [StatePassage, hentry, hbefore, hbefore, outstanding_acquire, outstanding_acquire]
  cases guard with
  | read => exact .enterRead ⟨⟨rfl, rfl⟩, id⟩ rfl rfl rfl
  | write => exact .enterWrite ⟨rfl, rfl⟩ rfl rfl rfl

/-- A compare-and-exchange that takes a guard, or fails and goes on without one. -/
theorem passage_of_exchange {guard : Guard} {state : ℕ} {shared : Shared} {failed : Thread}
    (hcall : th.call = call) (hdropping : ∀ guard, call.dropping guard = 0)
    (haccess : call.access before choice = exchange before state true)
    (hfailed : ∀ guard, failed.outstanding guard = th.owned guard)
    (h : (if before.state = state then quiet shared (th.acquire guard) else quiet before failed) =
      some (after, moved, signal)) : StatePassage before th moved choice .none := by
  split_ifs at h with hcas
  all_goals obtain ⟨-, rfl, -⟩ := quiet_eq_some.mp h
  · exact passage_enter hcall hdropping (haccess.trans (exchange_of_eq hcas))
  · refine passage_stay hcall hdropping ?_ hfailed
    rw [haccess]
    exact exchange_not_stores

/-- A step that wakes nobody, takes no guard and overwrites nothing. -/
theorem passage_of_quiet {shared : Shared} {next : Thread} (hcall : th.call = call)
    (hdropping : ∀ guard, call.dropping guard = 0)
    (haccess : ¬ (call.access before choice).Stores .state)
    (hnext : ∀ guard, next.outstanding guard = th.owned guard)
    (h : quiet shared next = some (after, moved, signal)) :
    StatePassage before th moved choice .none := by
  obtain ⟨-, rfl, -⟩ := quiet_eq_some.mp h
  exact passage_stay hcall hdropping haccess hnext

theorem readStep_passage {pc : ReadPc} (hcall : th.call = .read pc)
    (h : readStep before th pc choice = some (after, moved, signal)) :
    StatePassage before th moved choice .none := by
  have hdropping (guard : Guard) : (Call.read pc).dropping guard = 0 := rfl
  cases pc <;> cases choice <;> simp only [readStep, reduceCtorEq] at h
  case compareExchange.go state even =>
    exact passage_of_exchange hcall hdropping rfl (fun _ ↦ outstanding_readLoop) h
  all_goals try split_ifs at h
  all_goals exact passage_of_quiet hcall hdropping id (by simp [Call.dropping]) h

theorem writeStep_passage {pc : WritePc} (hcall : th.call = .write pc)
    (h : writeStep before th pc choice = some (after, moved, signal)) :
    StatePassage before th moved choice .none := by
  have hdropping (guard : Guard) : (Call.write pc).dropping guard = 0 := rfl
  cases pc <;> cases choice <;> simp only [writeStep, reduceCtorEq] at h
  case acquire.go state free =>
    exact passage_of_exchange hcall hdropping rfl (fun _ ↦ outstanding_writeLoop) h
  case setWaiting.go state shared =>
    split_ifs at h
    all_goals exact passage_of_quiet hcall hdropping exchange_not_stores (by simp [Call.dropping]) h
  all_goals try split_ifs at h
  all_goals exact passage_of_quiet hcall hdropping id (by simp [Call.dropping]) h

theorem tryReadStep_passage {pc : TryReadPc} (hcall : th.call = .tryRead pc)
    (h : tryReadStep before th pc choice = some (after, moved, signal)) :
    StatePassage before th moved choice .none := by
  have hdropping (guard : Guard) : (Call.tryRead pc).dropping guard = 0 := rfl
  cases pc <;> cases choice <;> simp only [tryReadStep, reduceCtorEq] at h
  case compareExchange.go state even =>
    exact passage_of_exchange hcall hdropping rfl (fun _ ↦ outstanding_ret) h
  all_goals try split_ifs at h
  all_goals exact passage_of_quiet hcall hdropping id (by simp [Call.dropping]) h

theorem tryWriteStep_passage {pc : TryWritePc} (hcall : th.call = .tryWrite pc)
    (h : tryWriteStep before th pc choice = some (after, moved, signal)) :
    StatePassage before th moved choice .none := by
  have hdropping (guard : Guard) : (Call.tryWrite pc).dropping guard = 0 := rfl
  cases pc <;> cases choice <;> simp only [tryWriteStep, reduceCtorEq] at h
  case compareExchange.go state free =>
    exact passage_of_exchange hcall hdropping rfl (fun _ ↦ outstanding_ret) h
  all_goals try split_ifs at h
  all_goals exact passage_of_quiet hcall hdropping id (by simp [Call.dropping]) h

theorem dropReadStep_passage {pc : DropReadPc} (hcall : th.call = .dropRead pc)
    (h : dropReadStep before th pc choice = some (after, moved, signal)) :
    StatePassage before th moved choice .none := by
  rw [StatePassage, access, hcall]
  cases pc <;> cases choice <;> simp only [dropReadStep, reduceCtorEq] at h
  case removeAcquired.go =>
    obtain ⟨-, rfl, -⟩ := quiet_eq_some.mp h
    refine .stay id (by simp) (by simp) ?_ ?_
    all_goals simp [Thread.outstanding, Thread.owned, hcall, Call.dropping]
  case fetchSub.go =>
    obtain ⟨-, rfl, -⟩ := quiet_eq_some.mp h
    refine .leaveRead ⟨⟨rfl, rfl⟩, id⟩ rfl ?_ ?_
    all_goals
      split_ifs
      all_goals simp [Thread.outstanding.eq_def _ th, hcall, Call.dropping]
  case wakeOne.go =>
    obtain ⟨-, rfl, -⟩ := by simpa using h
    refine .stay id (by simp) (by simp) ?_ ?_
    all_goals simp [Thread.outstanding.eq_def _ th, hcall, Call.dropping]

theorem dropWriteStep_passage {pc : DropWritePc} (hcall : th.call = .dropWrite pc)
    (h : dropWriteStep before th pc choice = some (after, moved, signal)) :
    StatePassage before th moved choice .none := by
  rw [StatePassage, access, hcall]
  cases pc <;> cases choice <;> simp only [dropWriteStep, reduceCtorEq] at h
  case removeAcquired.go =>
    obtain ⟨-, rfl, -⟩ := quiet_eq_some.mp h
    refine .stay id (by simp) (by simp) ?_ ?_
    all_goals simp [Thread.outstanding, Thread.owned, hcall, Call.dropping]
  case fetchAdd.go =>
    obtain ⟨-, rfl, -⟩ := quiet_eq_some.mp h
    refine .stay id (by simp) (by simp) ?_ ?_
    all_goals simp [Thread.outstanding.eq_def _ th, hcall, Call.dropping]
  case store.go =>
    obtain ⟨-, rfl, -⟩ := quiet_eq_some.mp h
    refine .leaveWrite ⟨rfl, rfl⟩ rfl ?_ ?_
    all_goals simp [Thread.outstanding.eq_def _ th, hcall, Call.dropping]
  case loadWaiting.go =>
    obtain ⟨-, rfl, -⟩ := quiet_eq_some.mp h
    refine .stay id (by simp) (by simp) ?_ ?_
    all_goals
      split_ifs
      all_goals simp [Thread.outstanding.eq_def _ th, hcall, Call.dropping]
  all_goals
    obtain ⟨-, rfl, -⟩ := by simpa using h
    refine .stay id (by simp) (by simp) ?_ ?_
    all_goals simp [Thread.outstanding.eq_def _ th, hcall, Call.dropping]

theorem idleStep_passage (hcall : th.call = .idle)
    (h : idleStep before th choice = some (after, moved, signal)) :
    StatePassage before th moved choice .none := by
  have hdropping (guard : Guard) : Call.idle.dropping guard = 0 := rfl
  cases choice with
  | call method =>
    cases method
    all_goals
      obtain ⟨-, rfl, -⟩ := quiet_eq_some.mp h
      exact passage_stay hcall hdropping id (by simp [Call.dropping])
  | drop guard panicking =>
    cases guard
    all_goals
      simp only [idleStep] at h
      split_ifs at h with howned
      obtain ⟨-, rfl, -⟩ := quiet_eq_some.mp h
      refine passage_stay hcall hdropping id fun guard ↦ ?_
      cases guard <;>
        simp [Thread.outstanding, Thread.owned, Call.dropping, Nat.sub_add_cancel howned]
  | clearPoison =>
    obtain ⟨-, rfl, -⟩ := quiet_eq_some.mp h
    exact passage_stay hcall hdropping id fun guard ↦ by
      simp [Thread.outstanding, hcall, Call.dropping]
  | go => cases h
  | spurious => cases h

/-- Every step of a thread is a passage of `state`. -/
theorem step_passage (h : step before th choice = some (after, moved, signal)) :
    StatePassage before th moved choice .none := by
  unfold step at h
  split at h
  case h_1 hcall => exact idleStep_passage hcall h
  case h_2 hcall => exact readStep_passage hcall h
  case h_3 hcall => exact writeStep_passage hcall h
  case h_4 hcall => exact tryReadStep_passage hcall h
  case h_5 hcall => exact tryWriteStep_passage hcall h
  case h_6 hcall =>
    split_ifs at h
    obtain ⟨-, rfl, -⟩ := quiet_eq_some.mp h
    refine passage_stay hcall (fun _ ↦ rfl) id fun guard ↦ ?_
    cases guard <;> simp [finish, Thread.ret, Thread.outstanding, Thread.owned, Call.dropping]
  case h_7 hcall => exact dropReadStep_passage hcall h
  case h_8 hcall => exact dropWriteStep_passage hcall h

end Steps

/-! ### Every run -/

section Runs

variable {Tid α : Type} [DecidableEq Tid] [Fintype Tid]

/-- The lock with the method `is_poisoned`, which any thread can call between two calls. -/
def systemWithPolls (Tid : Type) [DecidableEq Tid] [Fintype Tid] :
    System (Pool Tid Shared (Polled.Local Thread)) (Label Tid (Polled.Choice Choice)) :=
  ((machine Tid).polled guards Shared.poisoned).system (Polled.start (new Tid))

/-- Fewer than `2 ^ 31 - 1` read guards are outstanding, and only the owner of a write guard calls
`clear_poison`. -/
def ClearsOwn (p : Pool Tid Shared Thread) (t : Tid) (choice : Choice) : Prop :=
  ReaderBound p ∧ (choice = .clearPoison → 0 < (p.threads t).writeGuards)

instance (p : Pool Tid Shared Thread) (t : Tid) (choice : Choice) :
    Decidable (ClearsOwn p t choice) :=
  inferInstanceAs (Decidable (_ ∧ _))

omit [DecidableEq Tid] [Fintype Tid] in
/-- Who touches `poisoned` keeps its guards. -/
theorem outstanding_of_poisonedTouch {before after : Shared} {th moved : Thread} {choice : Choice}
    {signal : Signal Tid Addr} (hstep : step before th choice = some (after, moved, signal))
    (htouch : th.call.poisonedTouch choice ≠ .none) (guard : Guard) :
    moved.outstanding guard = th.outstanding guard := by
  unfold step at hstep
  split at hstep
  case h_1 hcall =>
    rw [hcall] at htouch
    cases choice with
    | drop dropped panicking =>
      cases dropped with
      | read => exact absurd rfl htouch
      | write =>
        simp only [idleStep] at hstep
        split_ifs at hstep with howned
        obtain ⟨-, rfl, -⟩ := quiet_eq_some.mp hstep
        cases guard <;>
          simp [Thread.outstanding, Thread.owned, hcall, Call.dropping, Nat.sub_add_cancel howned]
    | clearPoison =>
      obtain ⟨-, rfl, -⟩ := quiet_eq_some.mp hstep
      rfl
    | _ => exact absurd rfl htouch
  case h_6 hcall =>
    split_ifs at hstep
    obtain ⟨-, rfl, -⟩ := quiet_eq_some.mp hstep
    cases guard <;>
      simp [finish, Thread.ret, Thread.outstanding, Thread.owned, hcall, Call.dropping]
  all_goals
    rename_i hcall
    rw [hcall] at htouch
    exact absurd rfl htouch

omit [DecidableEq Tid] in
/-- Who writes `poisoned` under `ClearsOwn` owns a write guard. -/
theorem writes_of_poisonedTouch {p : Pool Tid Shared Thread} {t : Tid} {choice : Choice}
    {after : Shared} {moved : Thread} {signal : Signal Tid Addr} (hclears : ClearsOwn p t choice)
    (hstep : step p.shared (p.threads t) choice = some (after, moved, signal))
    (htouch : (p.threads t).call.poisonedTouch choice = .write) :
    0 < (p.threads t).outstanding .write := by
  unfold step at hstep
  split at hstep
  case h_1 hcall =>
    rw [hcall] at htouch
    cases choice with
    | drop dropped panicking =>
      cases dropped with
      | read => cases htouch
      | write =>
        simp only [idleStep] at hstep
        split_ifs at hstep with howned
        exact Nat.add_pos_left howned _
    | clearPoison => exact Nat.add_pos_left (hclears.2 rfl) _
    | _ => cases htouch
  case h_6 hcall =>
    rw [hcall] at htouch
    cases choice <;> cases htouch
  all_goals
    rename_i hcall
    rw [hcall] at htouch
    cases htouch

omit [DecidableEq Tid] [Fintype Tid] in
/-- Who reads `poisoned` has just acquired. -/
theorem acquired_of_poisonedTouch {call : Call} {choice : Choice}
    (htouch : call.poisonedTouch choice = .read) : ∃ guard, call = .acquired guard := by
  unfold Call.poisonedTouch at htouch
  split at htouch
  case h_1 guard => exact ⟨guard, rfl⟩
  all_goals cases htouch

/-- No run under the condition has a data race on the data. -/
theorem data_raceFree {data : α}
    {x : Pool Tid (Guarded.Shared Shared α) (Guarded.Local Thread α) × Trace Tid Word}
    (h : (tracing (systemWithData Tid data) (stepEvent (Guarded.access access)
      Guarded.touch)).ReachableWhen (fun x label ↦ DataCondition x.1 label) x) : RaceFree x.2 := by
  refine Guarded.raceFree_of_sharing (Thread.outstanding .read) (Thread.outstanding .write) .state
    DataCondition (fun _ ↦ ⟨rfl, rfl⟩) (fun _ ↦ ⟨outstanding_wake, outstanding_wake⟩)
    (fun _ ↦ ⟨rfl, rfl⟩) (fun _ hrun ↦ sharing_of_data hrun) (fun _ ↦ outstanding_pos_of_owns)
    (fun p label update hmeets hchoice _ ↦ ?_)
    (fun _ _ _ _ _ _ _ hstep ↦ step_passage hstep) h
  have hstoring : label.choice.storing = true := by
    rw [hchoice]
    rfl
  exact Nat.add_pos_left (hmeets.2 hstoring) _

/-- No run under the condition in which only owners read the flag has a data race on `poisoned`. -/
theorem poisoned_raceFree {x : Pool Tid Shared (Polled.Local Thread) × Trace Tid Word}
    (h : (tracing (systemWithPolls Tid) (stepEvent (Polled.access access)
      (Polled.touch poisonedTouch))).ReachableWhen
        (fun x label ↦ Polled.ByOwners guards ClearsOwn x.1 label) x) : RaceFree x.2 := by
  refine Polled.raceFree_of_sharing (Thread.outstanding .read) (Thread.outstanding .write) .state
    (fun _ ↦ ⟨rfl, rfl⟩) (fun _ ↦ ⟨outstanding_wake, outstanding_wake⟩) (fun _ ↦ ⟨rfl, rfl⟩)
    (fun p hrun ↦ sharing_of_run (hrun.mono fun _ _ hmeets ↦ hmeets.1))
    (fun _ ↦ outstanding_pos_of_owns) ?_ h
  intro p t choice moved after signal hrun hclears hstep
  refine SharedPassage.of_none (step_passage hstep) (fun htouch ↦ ?_) (fun htouch ↦ ?_)
    fun htouch ↦ writes_of_poisonedTouch hclears hstep htouch
  · exact ⟨outstanding_of_poisonedTouch hstep htouch .read,
      outstanding_of_poisonedTouch hstep htouch .write⟩
  · obtain ⟨guard, hcall⟩ := acquired_of_poisonedTouch htouch
    exact owns_of_acquired hrun hcall

/-- Neither cell has a data race in the runs in which fewer than `2 ^ 31 - 1` read guards are
outstanding, stores go through write guards, `clear_poison` is called by owners of write guards
only, and `is_poisoned` by owners of guards only. -/
theorem rwlock_cells_raceFree (Tid : Type) [DecidableEq Tid] [Fintype Tid] (data : α) :
    (∀ x, (tracing (systemWithData Tid data) (stepEvent (Guarded.access access)
        Guarded.touch)).ReachableWhen (fun x label ↦ DataCondition x.1 label) x → RaceFree x.2) ∧
      ∀ x, (tracing (systemWithPolls Tid) (stepEvent (Polled.access access)
          (Polled.touch poisonedTouch))).ReachableWhen
        (fun x label ↦ Polled.ByOwners guards ClearsOwn x.1 label) x → RaceFree x.2 :=
  ⟨fun _ ↦ data_raceFree, fun _ ↦ poisoned_raceFree⟩

/-- `rwlock_cells_raceFree` on runs of two threads: thread 0 loads the data through a read guard,
thread 1 sets the lowest bit meanwhile and stores once the guard is gone; and thread 0 drops a write
guard in a panic, whereupon thread 1 calls `is_poisoned` under a read guard, and clears the flag
under a write guard. -/
theorem rwlock_cells_raceFree_two_threads :
    (∃ x : Pool (Fin 2) (Guarded.Shared Shared ℕ) (Guarded.Local Thread ℕ) × Trace (Fin 2) Word,
        ((x.1.threads 0).lock.result.isSome ∧ x.1.shared.data = 9) ∧ RaceFree x.2) ∧
      ∃ x : Pool (Fin 2) Shared (Polled.Local Thread) × Trace (Fin 2) Word,
        (x.1.shared.poisoned = false ∧ (x.1.threads 1).answer = some true) ∧ RaceFree x.2 := by
  obtain ⟨hdata, hpoisoned⟩ := rwlock_cells_raceFree (Fin 2) 5
  obtain ⟨x, hrun, hx⟩ := System.exists_reachableWhen_of_exec
    (M := tracing (systemWithData (Fin 2) 5)
      (stepEvent (Guarded.access access) Guarded.touch)) (fun x label ↦ DataCondition x.1 label)
    (P := fun x ↦ (x.1.threads 0).lock.result.isSome ∧ x.1.shared.data = 9)
    ([⟨0, .lock (.call .read), none⟩] ++ List.replicate 4 ⟨0, .lock .go, none⟩ ++
      [⟨0, .load, none⟩] ++
      [⟨1, .lock (.call .write), none⟩] ++ List.replicate 6 ⟨1, .lock .go, none⟩ ++
      [⟨0, .lock (.drop .read false), none⟩] ++ List.replicate 2 ⟨0, .lock .go, none⟩ ++
      [⟨0, .lock .go, some 1⟩] ++ List.replicate 4 ⟨1, .lock .go, none⟩ ++
      [⟨1, .load, none⟩, ⟨1, .store (· + 4), none⟩]) (by decide +kernel)
  obtain ⟨y, hrun', hy⟩ := System.exists_reachableWhen_of_exec
    (M := tracing (systemWithPolls (Fin 2)) (stepEvent (Polled.access access)
      (Polled.touch poisonedTouch))) (fun x label ↦ Polled.ByOwners guards ClearsOwn x.1 label)
    (P := fun y ↦ y.1.shared.poisoned = false ∧ (y.1.threads 1).answer = some true)
    ([⟨0, .lock (.call .write), none⟩] ++ List.replicate 4 ⟨0, .lock .go, none⟩ ++
      [⟨0, .lock (.drop .write true), none⟩] ++ List.replicate 5 ⟨0, .lock .go, none⟩ ++
      [⟨1, .lock (.call .read), none⟩] ++ List.replicate 4 ⟨1, .lock .go, none⟩ ++
      [⟨1, .isPoisoned, none⟩, ⟨1, .lock (.drop .read false), none⟩] ++
      List.replicate 2 ⟨1, .lock .go, none⟩ ++
      [⟨1, .lock (.call .write), none⟩] ++ List.replicate 4 ⟨1, .lock .go, none⟩ ++
      [⟨1, .lock .clearPoison, none⟩]) (by decide +kernel)
  exact ⟨⟨x, hx, hdata x hrun⟩, y, hy, hpoisoned y hrun'⟩

/-- A call of `is_poisoned` by a thread without a guard races with the drop of a write guard in a
panic. -/
theorem isPoisoned_races :
    ∃ x : Pool (Fin 2) Shared (Polled.Local Thread) × Trace (Fin 2) Word,
      (tracing (systemWithPolls (Fin 2)) (stepEvent (Polled.access access)
        (Polled.touch poisonedTouch))).Reachable x ∧ ¬ RaceFree x.2 := by
  obtain ⟨x, hrun, htrace⟩ := System.exists_reachableWhen_of_exec
    (M := tracing (systemWithPolls (Fin 2)) (stepEvent (Polled.access access)
      (Polled.touch poisonedTouch))) (fun _ _ ↦ True)
    (P := fun x ↦ x.2 = [⟨0, .none, .none⟩, ⟨0, .none, .none⟩, ⟨0, .load .state false, .none⟩,
      ⟨0, .rmw .state true false, .none⟩, ⟨0, .none, .read⟩, ⟨0, .none, .write⟩,
      ⟨1, .none, .read⟩])
    ([⟨0, .lock (.call .write), none⟩] ++ List.replicate 4 ⟨0, .lock .go, none⟩ ++
      [⟨0, .lock (.drop .write true), none⟩, ⟨1, .isPoisoned, none⟩]) (by decide)
  refine ⟨x, hrun, fun hfree ↦ ?_⟩
  rw [htrace] at hfree
  have hpath := hfree 5 6 _ _ (by decide) rfl rfl (by decide) ⟨by decide, by decide, .inl rfl⟩
  exact not_happensBefore_of_first rfl (by decide) (fun _ ↦ id) hpath

end Runs

end SyncPrimitives.RwLock
