import SyncPrimitives.Concurrency.Progress
import SyncPrimitives.Semaphore.Clients

/-!
# The semaphore has no deadlock

Clients that take one permit at a time cannot block each other for good: from every state of every
run steps without spurious failures, and without new calls apart from those of `signal` that give
permits back, lead to a state in which all clients are done and the semaphore is as new
(`clients_can_finish`). As long as somebody is inside a call that does not wait, or can give a
permit back, a single step makes progress (`exists_prompt_step`). Otherwise all permits are in the
count, so that not everybody is asleep (`Permits.covered`), and a thread awake in the loop of `wait`
can take one (`exists_acquisition`).
-/

set_option autoImplicit false
set_option relaxedAutoImplicit false

namespace SyncPrimitives.Semaphore

open Concurrency Function

/-- The thread is inside `wait` or `try_wait` and has not taken a permit yet. -/
def Call.acquiring : Call → Bool
  | .wait .fetchSub => false
  | .wait _ => true
  | .tryWait _ => true
  | _ => false

/-- The thread is awake in the loop of `wait`. -/
def Call.looping : Call → Bool
  | .wait .load => true
  | .wait .wait => true
  | .wait (.compareExchangeWeak _ _) => true
  | _ => false

/-- How far a thread is from being done: every permit it has weighs more than what is left of a
`signal`, and a thread that may still take a permit weighs more than one that has it. -/
def Call.weight : Call → ℕ
  | .idle => 1
  | .wait .fetchAdd => 22
  | .wait .fetchSub => 2
  | .wait _ => 21
  | .tryWait .load => 22
  | .tryWait (.compareExchangeWeak _ _) => 21
  | .signal .fetchAdd => 0
  | .signal .load => 3
  | .signal .wakeOne => 2

/-- How far a client is from being done. -/
def Client.weight (client : Client) : ℕ := 8 * client.outstanding + client.thread.call.weight

/-- The client is between two calls and has nothing to give back. -/
def Client.Done (client : Client) : Prop := client.thread.call = .idle ∧ client.held = 0

/-- A client that asks for a permit has none. -/
def Single {Tid : Type} (p : Pool Tid Shared Client) (label : Label Tid Choice) : Prop :=
  label.choice = .wait ∨ label.choice = .tryWait → (p.threads label.thread).held = 0

instance {Tid : Type} (p : Pool Tid Shared Client) (label : Label Tid Choice) :
    Decidable (Single p label) :=
  inferInstanceAs (Decidable (_ → _))

/-- A step that goes on with a call, or begins to give a permit back. -/
def Finishing {Tid : Type} (_ : Pool Tid Shared Client) (label : Label Tid Choice) : Prop :=
  label.choice = .go ∨ label.choice = .signal

theorem Finishing.single {Tid : Type} {p : Pool Tid Shared Client} {label : Label Tid Choice}
    (h : Finishing p label) : Single p label := by
  rintro (hchoice | hchoice)
  all_goals
    rcases h with hgo | hsignal
    · cases hgo.symm.trans hchoice
    · cases hsignal.symm.trans hchoice

/-! ### Clients that take one permit at a time -/

section Steps

variable {Tid : Type} {before after : Shared} {th moved : Thread} {client movedClient : Client}
  {signal : Signal Tid Addr} {choice : Choice}

/-- A thread that is acquiring after a step was so before, or has just called. -/
theorem acquiring_of_step (h : step before th choice = some (after, moved, signal))
    (hacquiring : moved.call.acquiring = true) :
    choice ≠ .signal ∧ after.acquisitions = before.acquisitions ∧
      (th.call.acquiring = true ∨ choice = .wait ∨ choice = .tryWait) := by
  unfold step at h
  split at h
  case h_1 hcall =>
    cases choice <;> simp only [idleStep, reduceCtorEq] at h
    all_goals obtain ⟨rfl, rfl, -⟩ := quiet_eq_some_iff.mp h
    case wait => exact ⟨by simp, rfl, .inr (.inl rfl)⟩
    case tryWait => exact ⟨by simp, rfl, .inr (.inr rfl)⟩
    case signal => cases hacquiring
  case h_2 pc hcall =>
    cases pc <;> cases choice <;> simp only [waitStep, reduceCtorEq] at h
    all_goals try split_ifs at h
    all_goals
      obtain ⟨rfl, rfl, -⟩ := quiet_eq_some_iff.mp h
      first
        | exact ⟨by simp, rfl, .inl (by rw [hcall]; rfl)⟩
        | cases hacquiring
  case h_3 pc hcall =>
    cases pc <;> cases choice <;> simp only [tryWaitStep, reduceCtorEq] at h
    all_goals try split_ifs at h
    all_goals
      obtain ⟨rfl, rfl, -⟩ := quiet_eq_some_iff.mp h
      first
        | exact ⟨by simp, rfl, .inl (by rw [hcall]; rfl)⟩
        | cases hacquiring
  case h_4 pc hcall =>
    cases pc <;> cases choice <;> simp only [signalStep, reduceCtorEq] at h
    all_goals try split_ifs at h
    all_goals
      obtain ⟨rfl, rfl, -⟩ := by simpa [quiet] using h
      cases hacquiring

theorem acquiring_wake (th : Thread) : (wake th).call.acquiring = th.call.acquiring := by
  unfold wake
  split
  case h_1 hcall =>
    rw [hcall]
    rfl
  case h_2 => rfl

theorem weight_wake (client : Client) :
    Client.weight { client with thread := wake client.thread } = client.weight := by
  have hcall : (wake client.thread).call.weight = client.thread.call.weight := by
    unfold wake
    split
    case h_1 hcall =>
      rw [hcall]
      rfl
    case h_2 => rfl
  rw [Client.weight, outstanding_wake, Client.weight]
  exact congrArg _ hcall

/-- A step of the thread is a step of the client. -/
theorem clientStep_go (h : step before client.thread .go = some (after, moved, signal)) :
    clientStep before client .go = some (after,
      { thread := moved, held := client.held + (after.acquisitions - before.acquisitions) },
      signal) := by
  rw [clientStep, if_neg (by simp), h]
  rfl

/-- A step that takes no permit makes progress if it lowers the weight of the position. -/
theorem weight_lt_of_keep
    (h : clientStep before client choice = some (after, movedClient, signal))
    (hcount : before.count ≤ after.count)
    (hless : movedClient.thread.call.weight < client.thread.call.weight) :
    movedClient.weight < client.weight := by
  rw [Client.weight, Client.weight]
  cases clientStep_move h with
  | keep _ houtstanding => omega
  | take _ _ hcount' _ => omega
  | give _ _ _ houtstanding => omega

/-- A step that takes a permit makes progress if the position falls by more than the weight of the
permit. -/
theorem weight_lt_of_take
    (h : clientStep before client choice = some (after, movedClient, signal))
    (hless : movedClient.thread.call.weight + 8 < client.thread.call.weight) :
    movedClient.weight < client.weight := by
  rw [Client.weight, Client.weight]
  cases clientStep_move h with
  | keep _ houtstanding => omega
  | take _ _ _ houtstanding => omega
  | give _ _ _ houtstanding => omega

/-- A client that is neither done nor in the loop of `wait` makes progress by one step. -/
theorem exists_prompt_step (hbusy : ¬ client.Done) (hawake : client.thread.call.looping = false)
    (hasleep : client.thread.call ≠ .wait .asleep) :
    ∃ choice after moved signal,
      @clientStep Tid before client choice = some (after, moved, signal) ∧
        (choice = .go ∨ choice = .signal) ∧ moved.weight < client.weight := by
  obtain ⟨⟨call, result⟩, held⟩ := client
  have hgo {after : Shared} {moved : Thread} {signal : Signal Tid Addr}
      (hstep : step before ⟨call, result⟩ .go = some (after, moved, signal))
      (hless : moved.call.weight + 8 < call.weight ∨
        before.count ≤ after.count ∧ moved.call.weight < call.weight) :
      ∃ choice after moved signal,
        @clientStep Tid before ⟨⟨call, result⟩, held⟩ choice =
            some (after, moved, signal) ∧
          (choice = .go ∨ choice = .signal) ∧
            moved.weight < Client.weight ⟨⟨call, result⟩, held⟩ := by
    have hclient : clientStep before ⟨⟨call, result⟩, held⟩ .go =
        some (after, ⟨moved, held + (after.acquisitions - before.acquisitions)⟩, signal) :=
      clientStep_go hstep
    refine ⟨.go, _, _, _, hclient, .inl rfl, ?_⟩
    rcases hless with hless | ⟨hcount, hless⟩
    · exact weight_lt_of_take hclient hless
    · exact weight_lt_of_keep hclient hcount hless
  cases call with
  | idle =>
    have hpos : held ≠ 0 := fun hzero ↦ hbusy ⟨rfl, hzero⟩
    have hsignal : @clientStep Tid before ⟨⟨.idle, result⟩, held⟩ .signal =
        some (before, ⟨⟨.signal .fetchAdd, result⟩, held - 1⟩, .silent) :=
      if_neg fun hnone ↦ hpos hnone.2
    exact ⟨.signal, _, _, _, hsignal, .inr rfl,
      weight_lt_of_keep hsignal le_rfl (by simp [Call.weight])⟩
  | wait pc =>
    cases pc with
    | fetchAdd => exact hgo rfl (.inr ⟨le_rfl, by simp [Call.weight, Thread.goto]⟩)
    | fetchSub => exact hgo rfl (.inr ⟨le_rfl, by simp [Call.weight, Thread.goto]⟩)
    | asleep => exact absurd rfl hasleep
    | _ => cases hawake
  | tryWait pc =>
    cases pc with
    | load =>
      by_cases hcount : before.count = 0
      · exact hgo (dif_pos hcount) (.inr ⟨le_rfl, by simp [Call.weight, Thread.ret]⟩)
      · exact hgo (dif_neg hcount) (.inr ⟨le_rfl, by simp [Call.weight, Thread.goto]⟩)
    | compareExchangeWeak count available =>
      by_cases hcount : before.count = count
      · exact hgo (if_pos hcount) (.inl (by simp [Call.weight, Thread.ret]))
      · exact hgo (if_neg hcount) (.inr ⟨le_rfl, by simp [Call.weight, Thread.ret]⟩)
  | signal pc =>
    cases pc with
    | fetchAdd =>
      have hgiven : @clientStep Tid before ⟨⟨.signal .fetchAdd, result⟩, held⟩ .go =
          some ({ before with
            count := addU32 before.count 1, increments := before.increments + 1 },
            ⟨⟨.signal .load, result⟩, held⟩, .silent) := by
        simp [clientStep, step, signalStep, quiet, Thread.goto]
      refine ⟨.go, _, _, _, hgiven, .inl rfl, ?_⟩
      show 8 * held + 3 < 8 * (held + 1) + 0
      omega
    | load =>
      by_cases hwaiting : 0 < before.numWaiting
      · exact hgo (if_pos hwaiting) (.inr ⟨le_rfl, by simp [Call.weight, Thread.goto]⟩)
      · exact hgo (if_neg hwaiting) (.inr ⟨le_rfl, by simp [Call.weight, Thread.goto]⟩)
    | wakeOne => exact hgo rfl (.inr ⟨le_rfl, by simp [Call.weight, Thread.goto]⟩)

/-- Awake in the loop of `wait` all positions weigh the same, and a permit is still to be taken. -/
theorem of_looping {call : Call} (h : call.looping = true) :
    call.weight = 21 ∧ call.giving = false ∧ call.acquiring = true := by
  unfold Call.looping at h
  split at h
  case h_4 => cases h
  all_goals exact ⟨rfl, rfl, rfl⟩

/-- A client that loads an available count goes on to its compare-and-exchange. -/
theorem clientStep_load (hcall : client.thread.call = .wait .load)
    (havailable : before.count ≠ 0) :
    @clientStep Tid before client .go = some (before, { client with
      thread := client.thread.goto (.wait (.compareExchangeWeak before.count havailable)) },
      .silent) := by
  rw [clientStep, if_neg (by simp)]
  simp [step, hcall, waitStep, havailable, quiet]

/-- A compare-and-exchange of the current count takes a permit. -/
theorem clientStep_take {available : before.count ≠ 0}
    (hcall : client.thread.call = .wait (.compareExchangeWeak before.count available)) :
    @clientStep Tid before client .go = some (before.take before.count,
      { thread := client.thread.goto (.wait .fetchSub), held := client.held + 1 }, .silent) := by
  rw [clientStep, if_neg (by simp)]
  simp [step, hcall, waitStep, quiet, Shared.take]

/-- A client awake in the loop of `wait` that is not about to load takes a permit, or goes back to
the load. Assumes: the count is not zero. -/
theorem clientStep_looping (hlooping : client.thread.call.looping = true)
    (hcall : client.thread.call ≠ .wait .load) (havailable : before.count ≠ 0) :
    @clientStep Tid before client .go = some (before.take before.count,
        { thread := client.thread.goto (.wait .fetchSub), held := client.held + 1 }, .silent) ∨
      @clientStep Tid before client .go = some (before,
        { client with thread := client.thread.goto (.wait .load) }, .silent) := by
  unfold Call.looping at hlooping
  split at hlooping
  case h_1 hload => exact absurd hload hcall
  case h_2 hwait =>
    right
    rw [clientStep, if_neg (by simp)]
    simp [step, hwait, waitStep, havailable, quiet]
  case h_3 count available hattempt =>
    by_cases hcount : before.count = count
    · subst hcount
      exact .inl (clientStep_take hattempt)
    · right
      rw [clientStep, if_neg (by simp)]
      simp [step, hattempt, waitStep, hcount, quiet]
  case h_4 => cases hlooping

end Steps

/-! ### Every run -/

section Runs

variable {Tid : Type} [DecidableEq Tid] [Fintype Tid] {initialCount : ℕ}
  {p p' : Pool Tid Shared Client} {label : Label Tid Choice} {t : Tid}

/-- In a run of clients that take one permit at a time, whoever is acquiring has no permit. -/
theorem held_of_acquiring (h : (clientSystem Tid initialCount).ReachableWhen Single p)
    (hacquiring : (p.threads t).thread.call.acquiring = true) : (p.threads t).held = 0 := by
  refine h.invariant (P := fun p ↦ ∀ t, (p.threads t).thread.call.acquiring = true →
    (p.threads t).held = 0) (fun _ _ ↦ rfl) ?_ t hacquiring
  intro p label p' _ hmodest hsingle hmove t hacquiring
  obtain ⟨moved, signal, hlocal, hdelivered⟩ := Machine.step_cases hmove
  obtain ⟨-, hstep, hheld⟩ := clientStep_eq_some hlocal
  have hmoved (hafter : moved.thread.call.acquiring = true) : moved.held = 0 := by
    obtain ⟨hchoice, hacquisitions, hbefore⟩ := acquiring_of_step hstep hafter
    have hnone : (p.threads label.thread).held = 0 := hbefore.elim (hmodest _) hsingle
    rw [hheld, if_neg hchoice, hacquisitions, hnone, Nat.sub_self]
  have hmid (hafter : (update p.threads label.thread moved t).thread.call.acquiring = true) :
      (update p.threads label.thread moved t).held = 0 := by
    by_cases ht : t = label.thread
    · rw [ht, update_self] at hafter ⊢
      exact hmoved hafter
    · rw [update_of_ne ht] at hafter ⊢
      exact hmodest t hafter
  rcases hdelivered.thread t with heq | ⟨-, -, heq⟩ | heq
  · rw [heq] at hacquiring ⊢
    exact hmid hacquiring
  · rw [heq] at hacquiring ⊢
    exact hmid ((acquiring_wake _).symm.trans hacquiring)
  · rw [heq] at hacquiring ⊢
    exact hmid hacquiring

/-- One step of a client that makes progress. -/
theorem exists_continuation {choice : Choice} {after : Shared} {moved : Client}
    {signal : Signal Tid Addr}
    (hstep : clientStep p.shared (p.threads t) choice = some (after, moved, signal))
    (hchoice : choice = .go ∨ choice = .signal)
    (hless : moved.weight < (p.threads t).weight) :
    ∃ p', (clientSystem Tid initialCount).Continues Finishing p p' ∧
      total Client.weight p'.threads < total Client.weight p.threads := by
  obtain ⟨woken, p', hmove, hless⟩ : ∃ woken p',
      (clientSystem Tid initialCount).step p ⟨t, choice, woken⟩ = some p' ∧
        total Client.weight p'.threads < total Client.weight p.threads :=
    Machine.exists_descent (M := clients Tid) (fun _ _ _ ↦ (weight_wake _).le) (fun _ ↦ le_rfl)
      hstep hless
  have hfinishing : Finishing p ⟨t, choice, woken⟩ := hchoice
  exact ⟨p', .single hfinishing hmove, hless⟩

/-- The step by which a client in the loop of `wait` takes a permit makes progress. -/
theorem exists_continuation_of_take {moved : Client}
    (hlooping : (p.threads t).thread.call.looping = true)
    (hcall : moved.thread.call = .wait .fetchSub)
    (hstep : @clientStep Tid p.shared (p.threads t) .go =
      some (p.shared.take p.shared.count, moved, .silent)) :
    ∃ p', (clientSystem Tid initialCount).Continues Finishing p p' ∧
      total Client.weight p'.threads < total Client.weight p.threads := by
  refine exists_continuation hstep (.inl rfl) (weight_lt_of_take hstep ?_)
  rw [hcall, (of_looping hlooping).1]
  decide

/-- A client that is about to load an available count can take a permit. -/
theorem exists_acquisition_of_load (hcall : (p.threads t).thread.call = .wait .load)
    (havailable : p.shared.count ≠ 0) :
    ∃ p', (clientSystem Tid initialCount).Continues Finishing p p' ∧
      total Client.weight p'.threads < total Client.weight p.threads := by
  let moved : Client := { p.threads t with
    thread := (p.threads t).thread.goto (.wait (.compareExchangeWeak p.shared.count havailable)) }
  let middle : Pool Tid Shared Client := ⟨p.shared, update p.threads t moved⟩
  have hstep : (clients Tid).step t p.shared (p.threads t) .go = some (p.shared, moved, .silent) :=
    clientStep_load hcall havailable
  have hload : (clientSystem Tid initialCount).step p ⟨t, .go, none⟩ = some middle :=
    Machine.step_of_silent hstep
  have hthread : middle.threads t = moved := update_self ..
  have hsame : total Client.weight middle.threads = total Client.weight p.threads := by
    have hupdate := total_update Client.weight p.threads t moved
    have hweight : moved.weight = (p.threads t).weight := by
      rw [Client.weight, Client.weight, Client.outstanding, Client.outstanding, hcall]
      rfl
    show total Client.weight (update p.threads t moved) = _
    omega
  have htake : @clientStep Tid middle.shared (middle.threads t) .go =
      some (middle.shared.take middle.shared.count,
        { thread := moved.thread.goto (.wait .fetchSub), held := moved.held + 1 }, .silent) := by
    rw [hthread]
    exact clientStep_take rfl
  have hlooping : (middle.threads t).thread.call.looping = true := by
    rw [hthread]
    rfl
  obtain ⟨p', hpath, hless⟩ := exists_continuation_of_take hlooping rfl htake
  exact ⟨p', (System.Continues.single (.inl rfl) hload).trans hpath, hless.trans_eq hsame⟩

/-- A client awake in the loop of `wait` can take an available permit. -/
theorem exists_acquisition (hlooping : (p.threads t).thread.call.looping = true)
    (havailable : p.shared.count ≠ 0) :
    ∃ p', (clientSystem Tid initialCount).Continues Finishing p p' ∧
      total Client.weight p'.threads < total Client.weight p.threads := by
  by_cases hcall : (p.threads t).thread.call = .wait .load
  · exact exists_acquisition_of_load hcall havailable
  rcases @clientStep_looping Tid p.shared _ hlooping hcall havailable with htake | hretry
  · exact exists_continuation_of_take hlooping rfl htake
  · let moved : Client := { p.threads t with thread := (p.threads t).thread.goto (.wait .load) }
    let middle : Pool Tid Shared Client := ⟨p.shared, update p.threads t moved⟩
    have hstep : (clients Tid).step t p.shared (p.threads t) .go =
        some (p.shared, moved, .silent) := hretry
    have hmove : (clientSystem Tid initialCount).step p ⟨t, .go, none⟩ = some middle :=
      Machine.step_of_silent hstep
    have hthread : (middle.threads t).thread.call = .wait .load := by
      show (update p.threads t moved t).thread.call = _
      rw [update_self]
      rfl
    have hsame : total Client.weight middle.threads = total Client.weight p.threads := by
      have hupdate := total_update Client.weight p.threads t moved
      have hweight : moved.weight = (p.threads t).weight := by
        rw [Client.weight, Client.weight, Client.outstanding, Client.outstanding,
          (of_looping hlooping).1, (of_looping hlooping).2.1]
        rfl
      show total Client.weight (update p.threads t moved) = _
      omega
    obtain ⟨p', hpath, hless⟩ := exists_acquisition_of_load (p := middle) hthread havailable
    exact ⟨p', (System.Continues.single (.inl rfl) hmove).trans hpath, hless.trans_eq hsame⟩

/-- Until all clients are done, progress can be made. -/
theorem exists_progress (hinitial : initialCount ≤ u32Max) (hpos : 0 < initialCount)
    (hthreads : Fintype.card Tid < 2 ^ 32)
    (h : (clientSystem Tid initialCount).ReachableWhen Single p)
    (hbusy : ¬ ∀ t, (p.threads t).Done) :
    ∃ p', (clientSystem Tid initialCount).Continues Finishing p p' ∧
      total Client.weight p'.threads < total Client.weight p.threads := by
  by_cases hprompt : ∃ t, ¬ (p.threads t).Done ∧ (p.threads t).thread.call.looping = false ∧
      (p.threads t).thread.call ≠ .wait .asleep
  · obtain ⟨t, hdone, hawake, hasleep⟩ := hprompt
    obtain ⟨choice, after, moved, signal, hstep, hchoice, hless⟩ :=
      @exists_prompt_step Tid p.shared _ hdone hawake hasleep
    exact exists_continuation hstep hchoice hless
  -- all clients are done or in the loop of `wait`, so that all permits are in the count
  have hcases (t : Tid) : (p.threads t).Done ∨ (p.threads t).thread.call.looping = true ∨
      (p.threads t).thread.call = .wait .asleep := by
    by_contra hnone
    rw [not_or, not_or, Bool.not_eq_true] at hnone
    exact hprompt ⟨t, hnone⟩
  have hnone (t : Tid) : (p.threads t).outstanding = 0 := by
    rcases hcases t with hdone | hlooping | hasleep
    · rw [Client.outstanding, hdone.1, hdone.2]
      rfl
    · obtain ⟨-, hgiving, hacquiring⟩ := of_looping hlooping
      rw [Client.outstanding, hgiving, held_of_acquiring h hacquiring]
      rfl
    · rw [Client.outstanding, hasleep, held_of_acquiring h (by rw [hasleep]; rfl)]
      rfl
  have havailable : p.shared.count = initialCount := by
    have hbalance := conserved hinitial h.reachable
    rwa [(total_eq_zero_iff _ _).mpr hnone, Nat.add_zero] at hbalance
  by_cases hawake : ∃ t, (p.threads t).thread.call.looping = true
  · obtain ⟨t, ht⟩ := hawake
    exact exists_acquisition ht (by omega)
  -- somebody would be asleep while nobody could take a permit
  exfalso
  obtain ⟨t, ht⟩ := not_forall.mp hbusy
  have hasleep : (p.threads t).thread.call = .wait .asleep :=
    ((hcases t).resolve_left ht).resolve_left fun hlooping ↦ hawake ⟨t, hlooping⟩
  have hcovered := (permits hthreads (threadPool_reachable h)).covered ⟨t, hasleep⟩
  have hnobody (phase : Phase) (hphase : phase = .looping ∨ phase = .signalling) :
      threadsAt (threadPool p) phase = 0 :=
    countAt_eq_zero_iff.mpr fun u ↦ by
      show (p.threads u).thread.call.phase ≠ phase
      rcases hcases u with hdone | hlooping | hsleeping
      · rw [hdone.1]
        rcases hphase with rfl | rfl
        all_goals decide
      · exact absurd ⟨u, hlooping⟩ hawake
      · rw [hsleeping]
        rcases hphase with rfl | rfl
        all_goals decide
  rw [hnobody .looping (.inl rfl), hnobody .signalling (.inr rfl)] at hcovered
  have hcount : (threadPool p).shared.count = initialCount := havailable
  omega

/-- Clients that take one permit at a time never block each other for good: from every state of
every run steps that end well, without new calls apart from those of `signal`, lead to a state in
which all clients are done and the semaphore is as new. Assumes: there is a permit, the initial
count is a word, and so is the number of threads. -/
theorem clients_can_finish (hinitial : initialCount ≤ u32Max) (hpos : 0 < initialCount)
    (hthreads : Fintype.card Tid < 2 ^ 32)
    (h : (clientSystem Tid initialCount).ReachableWhen Single p) :
    ∃ p', (clientSystem Tid initialCount).Continues Finishing p p' ∧
      (∀ t, (p'.threads t).Done) ∧ p'.shared.count = initialCount ∧ p'.shared.numWaiting = 0 := by
  obtain ⟨p', hpath, hdone⟩ : ∃ p', (clientSystem Tid initialCount).Continues Finishing p p' ∧
      ∀ t, (p'.threads t).Done := by
    refine h.exists_goal (fun p ↦ total Client.weight p.threads) _ (fun _ _ ↦ Finishing.single) ?_
    intro p hrun hbusy
    exact exists_progress hinitial hpos hthreads hrun hbusy
  have hrun := h.continues hpath fun _ _ ↦ Finishing.single
  exact ⟨p', hpath, hdone, as_new hinitial hrun.reachable hdone⟩

/-- `clients_can_finish` from a state in which one client has the only permit and the other is
asleep. -/
theorem clients_can_finish_asleep :
    ∃ p p' : Pool (Fin 2) Shared Client,
      ((p.threads 0).held = 1 ∧ (p.threads 1).thread.call = .wait .asleep) ∧
      (clientSystem (Fin 2) 1).Continues Finishing p p' ∧
      (∀ t, (p'.threads t).Done) ∧ p'.shared.count = 1 ∧ p'.shared.numWaiting = 0 := by
  obtain ⟨p, hrun, hreached⟩ := System.exists_reachableWhen_of_exec
    (M := clientSystem (Fin 2) 1) Single
    (P := fun p ↦ (p.threads 0).held = 1 ∧ (p.threads 1).thread.call = .wait .asleep)
    ([⟨0, .wait, none⟩] ++ List.replicate 4 ⟨0, .go, none⟩ ++ [⟨1, .wait, none⟩] ++
      List.replicate 3 ⟨1, .go, none⟩) (by decide)
  obtain ⟨p', hfinish⟩ := clients_can_finish (by decide) (by decide) (by decide) hrun
  exact ⟨p, p', hreached, hfinish⟩

end Runs

end SyncPrimitives.Semaphore
