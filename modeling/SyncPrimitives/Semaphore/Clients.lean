import SyncPrimitives.Concurrency.Guarded
import SyncPrimitives.Semaphore.Permits

/-!
# Clients that give back what they have taken

The tests of `semaphore.rs` use the semaphore in brackets: a thread calls `signal` only for a permit
that a `wait` or a successful `try_wait` of its own has taken. `Client` keeps the permits of a
thread. Then the permits in the count and those of the clients are together the initial ones in
every state of every run, the increment of `signal` never wraps the count around, and once everybody
is done the semaphore is as new (`clients_conserve`). With one permit the semaphore is a lock
(`binary_excludes`) under which no update of the data is lost (`binary_intact`).
-/

set_option autoImplicit false
set_option relaxedAutoImplicit false

namespace SyncPrimitives.Semaphore

open Concurrency Function

/-! ### What a step does to the permits -/

/-- The thread is about to try to take a permit from a count. -/
def Call.attempts (count : ℕ) : Call → Bool
  | .wait (.compareExchangeWeak seen _) => seen = count
  | .tryWait (.compareExchangeWeak seen _) => seen = count
  | _ => false

/-- The thread is about to increment the count in `signal`. -/
def Call.giving : Call → Bool
  | .signal .fetchAdd => true
  | _ => false

/-- What a step does to the count: nothing, or it takes a permit, or it gives one back. -/
inductive Transfer (before : Shared) (th : Thread) (choice : Choice) (after : Shared)
    (moved : Thread) : Prop
  | keep (hcount : after.count = before.count) (hacquisitions : after.acquisitions =
      before.acquisitions) (hbefore : th.call.giving = false)
      (hmoved : moved.call.giving = decide (choice = .signal))
  | take (hattempt : th.call.attempts before.count = true) (hchoice : choice = .go)
      (hcount : after.count + 1 = before.count)
      (hacquisitions : after.acquisitions = before.acquisitions + 1)
      (hbefore : th.call.giving = false) (hmoved : moved.call.giving = false)
  | give (hbefore : th.call.giving = true) (hchoice : choice = .go)
      (hcount : after.count = addU32 before.count 1)
      (hacquisitions : after.acquisitions = before.acquisitions)
      (hmoved : moved.call.giving = false)

section Steps

variable {Tid : Type} {before after : Shared} {th moved : Thread} {signal : Signal Tid Addr}
  {choice : Choice}

/-- Every step keeps the permits, takes one, or gives one back. -/
theorem step_transfer (h : step before th choice = some (after, moved, signal)) :
    Transfer before th choice after moved := by
  unfold step at h
  split at h
  case h_1 hcall =>
    cases choice <;> simp only [idleStep, reduceCtorEq] at h
    all_goals
      obtain ⟨rfl, rfl, -⟩ := quiet_eq_some_iff.mp h
      exact .keep rfl rfl (by rw [hcall]; rfl) rfl
  case h_2 pc hcall =>
    have hgiving : th.call.giving = false := by
      rw [hcall]
      rfl
    cases pc with
    | compareExchangeWeak count available =>
      cases choice <;> simp only [waitStep, reduceCtorEq] at h
      case go =>
        split_ifs at h with hcount
        all_goals obtain ⟨rfl, rfl, -⟩ := quiet_eq_some_iff.mp h
        · refine .take ?_ rfl ?_ rfl hgiving rfl
          · rw [hcall]
            exact decide_eq_true hcount.symm
          · show count - 1 + 1 = before.count
            omega
        · exact .keep rfl rfl hgiving rfl
      case spurious =>
        obtain ⟨rfl, rfl, -⟩ := quiet_eq_some_iff.mp h
        exact .keep rfl rfl hgiving rfl
    | _ =>
      cases choice <;> simp only [waitStep, reduceCtorEq] at h
      all_goals
        try split_ifs at h
        all_goals
          obtain ⟨rfl, rfl, -⟩ := quiet_eq_some_iff.mp h
          exact .keep rfl rfl hgiving rfl
  case h_3 pc hcall =>
    have hgiving : th.call.giving = false := by
      rw [hcall]
      rfl
    cases pc with
    | compareExchangeWeak count available =>
      cases choice <;> simp only [tryWaitStep, reduceCtorEq] at h
      case go =>
        split_ifs at h with hcount
        all_goals obtain ⟨rfl, rfl, -⟩ := quiet_eq_some_iff.mp h
        · refine .take ?_ rfl ?_ rfl hgiving rfl
          · rw [hcall]
            exact decide_eq_true hcount.symm
          · show count - 1 + 1 = before.count
            omega
        · exact .keep rfl rfl hgiving rfl
      case spurious =>
        obtain ⟨rfl, rfl, -⟩ := quiet_eq_some_iff.mp h
        exact .keep rfl rfl hgiving rfl
    | load =>
      cases choice <;> simp only [tryWaitStep, reduceCtorEq] at h
      split_ifs at h
      all_goals
        obtain ⟨rfl, rfl, -⟩ := quiet_eq_some_iff.mp h
        exact .keep rfl rfl hgiving rfl
  case h_4 pc hcall =>
    cases pc with
    | fetchAdd =>
      cases choice <;> simp only [signalStep, reduceCtorEq] at h
      obtain ⟨rfl, rfl, -⟩ := quiet_eq_some_iff.mp h
      exact .give (by rw [hcall]; rfl) rfl rfl rfl rfl
    | load =>
      cases choice <;> simp only [signalStep, reduceCtorEq] at h
      split_ifs at h
      all_goals
        obtain ⟨rfl, rfl, -⟩ := quiet_eq_some_iff.mp h
        exact .keep rfl rfl (by rw [hcall]; rfl) rfl
    | wakeOne =>
      cases choice <;> simp only [signalStep, reduceCtorEq] at h
      obtain ⟨rfl, rfl, -⟩ := by simpa using h
      exact .keep rfl rfl (by rw [hcall]; rfl) rfl

end Steps

/-! ### Clients -/

/-- A thread and the permits it can give back. A call of `signal` takes over the permit it gives
back. -/
structure Client where
  thread : Thread
  held : ℕ

/-- The permits a client has taken and the count has not got back. -/
def Client.outstanding (client : Client) : ℕ :=
  client.held + if client.thread.call.giving then 1 else 0

/-- One step of a client: `signal` is called only with a permit. -/
def clientStep {Tid : Type} (shared : Shared) (client : Client) (choice : Choice) :
    Option (Shared × Client × Signal Tid Addr) :=
  if choice = .signal ∧ client.held = 0 then none
  else (step shared client.thread choice).map fun (after, moved, signal) ↦
    (after,
      { thread := moved
        held := if choice = .signal then client.held - 1
          else client.held + (after.acquisitions - shared.acquisitions) }, signal)

/-- The clients of a semaphore. -/
def clients (Tid : Type) : Machine Tid Shared Client Choice Addr where
  step := fun _ shared client choice ↦ clientStep shared client choice
  asleepOn := fun client ↦ asleepOn client.thread
  wake := fun client ↦ { client with thread := wake client.thread }
  unpark := id

/-- A new semaphore, before any call. -/
def newClients (Tid : Type) (initialCount : ℕ) : Pool Tid Shared Client where
  shared := (new Tid initialCount).shared
  threads := fun t ↦ { thread := (new Tid initialCount).threads t, held := 0 }

/-- Any number of clients using one semaphore. -/
def clientSystem (Tid : Type) [DecidableEq Tid] [Fintype Tid] (initialCount : ℕ) :
    System (Pool Tid Shared Client) (Label Tid Choice) :=
  (clients Tid).system (newClients Tid initialCount)

/-- The semaphore without the permits of its clients. -/
def threadPool {Tid : Type} (p : Pool Tid Shared Client) : Pool Tid Shared Thread where
  shared := p.shared
  threads := fun t ↦ (p.threads t).thread

section ClientSteps

variable {Tid : Type} {before after : Shared} {client moved : Client} {signal : Signal Tid Addr}
  {choice : Choice}

theorem clientStep_eq_some (h : clientStep before client choice = some (after, moved, signal)) :
    (choice = .signal → 0 < client.held) ∧
      step before client.thread choice = some (after, moved.thread, signal) ∧
      moved.held = if choice = .signal then client.held - 1
        else client.held + (after.acquisitions - before.acquisitions) := by
  by_cases hnone : choice = .signal ∧ client.held = 0
  · rw [clientStep, if_pos hnone] at h
    cases h
  rw [clientStep, if_neg hnone] at h
  obtain ⟨⟨middle, movedThread, middleSignal⟩, hstep, heq⟩ := Option.map_eq_some_iff.mp h
  simp only [Prod.mk.injEq] at heq
  obtain ⟨rfl, rfl, rfl⟩ := heq
  exact ⟨fun hchoice ↦ Nat.pos_of_ne_zero fun hzero ↦ hnone ⟨hchoice, hzero⟩, hstep, rfl⟩

/-- What a step of a client does to the permits: it keeps them, takes one by its
compare-and-exchange, or gives one back by the increment of `signal`. -/
inductive ClientMove (before : Shared) (client : Client) (choice : Choice) (after : Shared)
    (moved : Client) : Prop
  | keep (hcount : after.count = before.count)
      (houtstanding : moved.outstanding = client.outstanding)
  | take (hattempt : client.thread.call.attempts before.count = true) (hchoice : choice = .go)
      (hcount : after.count + 1 = before.count)
      (houtstanding : moved.outstanding = client.outstanding + 1)
  | give (hgiving : client.thread.call.giving = true) (hchoice : choice = .go)
      (hcount : after.count = addU32 before.count 1)
      (houtstanding : moved.outstanding + 1 = client.outstanding)

/-- Every step of a client is one of the moves. -/
theorem clientStep_move (h : clientStep before client choice = some (after, moved, signal)) :
    ClientMove before client choice after moved := by
  obtain ⟨hpermit, hstep, hheld⟩ := clientStep_eq_some h
  cases step_transfer hstep with
  | keep hcount hacquisitions hbefore hmoved =>
    refine .keep hcount ?_
    rw [Client.outstanding, Client.outstanding, hheld, hbefore, hmoved, hacquisitions]
    by_cases hchoice : choice = .signal
    · have hpos := hpermit hchoice
      simp only [hchoice, if_true, decide_true, Bool.false_eq_true, if_false]
      omega
    · simp [hchoice]
  | take hattempt hchoice hcount hacquisitions hbefore hmoved =>
    refine .take hattempt hchoice hcount ?_
    rw [Client.outstanding, Client.outstanding, hheld, hbefore, hmoved, hacquisitions, hchoice]
    simp
  | give hbefore hchoice hcount hacquisitions hmoved =>
    refine .give hbefore hchoice hcount ?_
    rw [Client.outstanding, Client.outstanding, hheld, hbefore, hmoved, hacquisitions, hchoice]
    simp

/-- A wake-up changes no permit. -/
theorem outstanding_wake (client : Client) :
    Client.outstanding { client with thread := wake client.thread } = client.outstanding := by
  unfold Client.outstanding wake
  split
  case h_1 hcall =>
    rw [hcall]
    rfl
  case h_2 => rfl

end ClientSteps

/-! ### Every run -/

section Runs

variable {Tid : Type} [DecidableEq Tid] [Fintype Tid] {initialCount : ℕ}
  {p p' : Pool Tid Shared Client} {label : Label Tid Choice}

/-- A step of the clients is a step of the semaphore. -/
theorem threadPool_step (hmove : (clientSystem Tid initialCount).step p label = some p') :
    ∃ j, (system Tid initialCount).step (threadPool p) j = some (threadPool p') := by
  obtain ⟨moved, signal, hlocal, hdelivered⟩ := Machine.step_cases hmove
  obtain ⟨-, hstep, -⟩ := clientStep_eq_some hlocal
  have hinner : (machine Tid).Delivered signal
      (update (threadPool p).threads label.thread moved.thread) (threadPool p').threads :=
    hdelivered.map_update Client.thread (fun _ _ ↦ .rfl) (fun _ _ _ ↦ rfl) fun _ ↦ rfl
  obtain ⟨woken, hpool⟩ : ∃ woken, (system Tid initialCount).step (threadPool p)
      ⟨label.thread, label.choice, woken⟩ = some (threadPool p') :=
    Machine.exists_step hstep hinner
  exact ⟨_, hpool⟩

/-- Every run of the clients is a run of the semaphore. -/
theorem threadPool_reachable {ok : Pool Tid Shared Client → Label Tid Choice → Prop}
    (h : (clientSystem Tid initialCount).ReachableWhen ok p) :
    (system Tid initialCount).Reachable (threadPool p) := by
  refine h.map threadPool rfl fun p label p' _ _ hmove ↦ ?_
  obtain ⟨j, hstep⟩ := threadPool_step hmove
  exact .inr ⟨j, trivial, hstep⟩

/-- The effect of a step on the permits of all clients. -/
theorem total_outstanding_step {moved : Client} {signal : Signal Tid Addr} {t : Tid}
    (hdelivered : (clients Tid).Delivered signal (update p.threads t moved) p'.threads) :
    total Client.outstanding p'.threads + (p.threads t).outstanding =
      total Client.outstanding p.threads + moved.outstanding := by
  rw [hdelivered.total_eq (fun client _ _ ↦ outstanding_wake client) fun _ ↦ rfl]
  exact total_update ..

/-- No permit is lost and none is made up. Assumes: the initial count is a word. -/
theorem conserved (hinitial : initialCount ≤ u32Max)
    (h : (clientSystem Tid initialCount).Reachable p) :
    p.shared.count + total Client.outstanding p.threads = initialCount := by
  refine h.invariant
    (P := fun p ↦ p.shared.count + total Client.outstanding p.threads = initialCount) ?_ ?_
  · show initialCount + total Client.outstanding (newClients Tid initialCount).threads =
      initialCount
    have hnone : total Client.outstanding (newClients Tid initialCount).threads = 0 :=
      (total_eq_zero_iff _ _).mpr fun _ ↦ rfl
    rw [hnone, Nat.add_zero]
  · intro p label p' _ hbalance _ hmove
    obtain ⟨moved, signal, hlocal, hdelivered⟩ := Machine.step_cases hmove
    have htotal := total_outstanding_step hdelivered
    have hself := le_total Client.outstanding p.threads label.thread
    rw [u32Max_eq] at hinitial
    cases clientStep_move hlocal with
    | keep hcount houtstanding => omega
    | take hattempt hchoice hcount houtstanding => omega
    | give hgiving hchoice hcount houtstanding =>
      rw [addU32_of_lt (by omega)] at hcount
      omega

/-- When all clients are between two calls with nothing to give back, the semaphore is as new.
Assumes: the initial count is a word. -/
theorem as_new (hinitial : initialCount ≤ u32Max) (h : (clientSystem Tid initialCount).Reachable p)
    (hquiet : ∀ t, (p.threads t).thread.call = .idle ∧ (p.threads t).held = 0) :
    p.shared.count = initialCount ∧ p.shared.numWaiting = 0 := by
  have hbalance := conserved hinitial h
  have hzero : total Client.outstanding p.threads = 0 := (total_eq_zero_iff _ _).mpr fun t ↦ by
    rw [Client.outstanding, (hquiet t).1, (hquiet t).2]
    rfl
  have hwaiting := waiting_mod (threadPool_reachable h)
  have hnobody (phase : Phase) (hphase : phase ≠ .outside) : threadsAt (threadPool p) phase = 0 :=
    countAt_eq_zero_iff.mpr fun t ↦ by
      show (p.threads t).thread.phase ≠ phase
      rw [Thread.phase, (hquiet t).1]
      exact hphase.symm
  rw [hnobody .looping (by decide), hnobody .sleeping (by decide), hnobody .leaving (by decide)]
    at hwaiting
  exact ⟨by omega, hwaiting⟩

/-- The permits in the count and those of the clients are together the initial ones, the increment
of `signal` never wraps the count around, and when all clients are between two calls with nothing to
give back, the semaphore is as new. Assumes: the initial count is a word. -/
theorem clients_conserve (hinitial : initialCount ≤ u32Max)
    (h : (clientSystem Tid initialCount).Reachable p) :
    p.shared.count + total Client.outstanding p.threads = initialCount ∧
      (∀ t, (p.threads t).thread.call.giving = true → p.shared.count < u32Max) ∧
      ((∀ t, (p.threads t).thread.call = .idle ∧ (p.threads t).held = 0) →
        p.shared.count = initialCount ∧ p.shared.numWaiting = 0) := by
  have hbalance := conserved hinitial h
  refine ⟨hbalance, fun t hgiving ↦ ?_, as_new hinitial h⟩
  have hle := le_total Client.outstanding p.threads t
  have hone : 0 < (p.threads t).outstanding := by
    rw [Client.outstanding, hgiving]
    exact Nat.succ_pos _
  omega

/-- `clients_conserve` after a run in which each of two clients has taken one of two permits, thread
0 has given its permit back, and a third client waits. -/
theorem clients_conserve_three :
    ∃ p : Pool (Fin 3) Shared Client, ((p.threads 1).held = 1 ∧ p.shared.count = 1 ∧
        (p.threads 2).thread.call = .wait .load) ∧
      p.shared.count + total Client.outstanding p.threads = 2 ∧
      (∀ t, (p.threads t).thread.call.giving = true → p.shared.count < u32Max) ∧
      ((∀ t, (p.threads t).thread.call = .idle ∧ (p.threads t).held = 0) →
        p.shared.count = 2 ∧ p.shared.numWaiting = 0) := by
  obtain ⟨p, hrun, hreached⟩ := System.exists_reachableWhen_of_exec
    (M := clientSystem (Fin 3) 2) (fun _ _ ↦ True)
    (P := fun p ↦ (p.threads 1).held = 1 ∧ p.shared.count = 1 ∧
      (p.threads 2).thread.call = .wait .load)
    ([⟨0, .wait, none⟩] ++ List.replicate 4 ⟨0, .go, none⟩ ++ [⟨1, .tryWait, none⟩] ++
      List.replicate 2 ⟨1, .go, none⟩ ++ [⟨2, .wait, none⟩] ++ List.replicate 3 ⟨2, .go, none⟩ ++
      [⟨0, .signal, none⟩, ⟨0, .go, none⟩, ⟨0, .go, none⟩, ⟨0, .go, some 2⟩]) (by decide)
  exact ⟨p, hreached, clients_conserve (by decide) hrun⟩

/-! ### One permit -/

/-- With one permit at most one client has a permit, and only one. -/
theorem binary_excludes (h : (clientSystem Tid 1).Reachable p) (t u : Tid)
    (ht : 0 < (p.threads t).outstanding) :
    (p.threads t).outstanding = 1 ∧ (0 < (p.threads u).outstanding → t = u) := by
  have hbalance := conserved (by decide) h
  refine ⟨?_, fun hu ↦ ?_⟩
  · have hle := le_total Client.outstanding p.threads t
    omega
  · by_contra hne
    have hle := add_le_total Client.outstanding p.threads hne
    omega

/-- A client owns the data while it has a permit, and can use it between two calls. -/
def guards : Guards Client where
  owns := fun client ↦ 0 < client.held
  idle := fun client ↦ client.thread.call = .idle

/-- The clients of a semaphore with one permit, and the data it protects. -/
def binaryWithData {α : Type} (Tid : Type) [DecidableEq Tid] [Fintype Tid] (data : α) :
    System (Pool Tid (Guarded.Shared Shared α) (Guarded.Local Client α))
      (Label Tid (Guarded.Choice Choice α)) :=
  ((clients Tid).guarded guards α).system (Guarded.start (newClients Tid 1) data)

/-- Under a semaphore with one permit no update of the data is lost. -/
theorem binary_intact {α : Type} {data : α}
    {p : Pool Tid (Guarded.Shared Shared α) (Guarded.Local Client α)}
    (h : (binaryWithData Tid data).Reachable p) : Guarded.Intact guards data p := by
  refine Guarded.intact (fun p hrun t u ht hu ↦ ?_) (fun _ ↦ rfl) (fun _ ↦ rfl) h
  simp only [guards, decide_eq_true_eq] at ht hu
  exact (binary_excludes hrun t u (Nat.add_pos_left ht _)).2 (Nat.add_pos_left hu _)

end Runs

end SyncPrimitives.Semaphore
