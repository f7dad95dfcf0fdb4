import SyncPrimitives.Concurrency.Runs
import SyncPrimitives.CondVar.Notification
import Mathlib.Data.Set.Card

/-!
# What `notify_one` wakes

A thread that has loaded `counter` in `wait` falls asleep only if `counter` has not moved since. So
after the increment of a `notify_one` nobody who is still awake can fall asleep, and its `wake_one`
either takes one of those who sleep or finds that nobody does: the threads that sleep or may fall
asleep become fewer with every `notify_one` that completes, until there are none
(`notify_one_wakes`).

For this it does not matter why a thread waits. In `openSystem` any thread may call `wait` at any
time, with the guard of whatever mutex, and comes back without a look at the mutex of the model; the
runs of `system` are among its runs (`reachable_openSystem`). `Tallied` says what the words count:
`waiting` is the number of threads between its `fetch_add` and its `fetch_sub` up to a multiple of
`2^32`, and not more than that (`waiting_wraps`).
-/

set_option autoImplicit false
set_option relaxedAutoImplicit false

namespace SyncPrimitives.CondVar

open Concurrency Function

variable {Tid : Type}

/-! ### Threads that wait with any mutex -/

/-- What resolves a step of a thread that may call `wait` with the guard of any mutex: such a call,
the return of the `lock` at its end, or a step as before. -/
inductive OpenChoice
  | wait
  | relock
  | step (choice : Choice)
  deriving DecidableEq

/-- One step of such a thread. -/
def openStep (self : Tid) (shared : Shared Tid) :
    Call → OpenChoice → Option (Shared Tid × Call × Signal Tid Addr)
  | .between _ _, .wait => quiet shared (.wait .load)
  | .lock _, .relock => quiet shared (.between false false)
  | call, .step choice => step self shared call choice
  | _, _ => none

/-- The threads of a condition variable that may wait with any mutex. -/
def openMachine (Tid : Type) : Machine Tid (Shared Tid) Call OpenChoice Addr where
  step := openStep
  asleepOn := asleepOn
  wake := wake
  unpark := id

/-! ### Phases of `wait` -/

namespace Phase

/-- The thread has loaded `counter` in `wait` and has not returned from the futex wait. -/
def waits : Phase → Bool
  | .loaded _ _ => true
  | .announced _ _ => true
  | .waiting _ _ => true
  | .sleeping => true
  | _ => false

/-- The thread sleeps, or no notification has come since it loaded `counter`. -/
def maySleep (notifications : ℕ) : Phase → Bool
  | .loaded _ loadedAt => loadedAt = notifications
  | .announced _ loadedAt => loadedAt = notifications
  | .waiting _ loadedAt => loadedAt = notifications
  | .sleeping => true
  | _ => false

/-- The thread has loaded the counter of a moment in the past. -/
def Loaded (notifications : ℕ) : Phase → Prop
  | .loaded state loadedAt => state = loadedAt % 2 ^ 32 ∧ loadedAt ≤ notifications
  | .announced state loadedAt => state = loadedAt % 2 ^ 32 ∧ loadedAt ≤ notifications
  | .waiting state loadedAt => state = loadedAt % 2 ^ 32 ∧ loadedAt ≤ notifications
  | _ => True

variable {phase : Phase} {notifications notifications' : ℕ}

theorem Loaded.mono (h : phase.Loaded notifications) (hle : notifications ≤ notifications') :
    phase.Loaded notifications' := by
  cases phase with
  | loaded | announced | waiting => exact ⟨h.1, h.2.trans hle⟩
  | _ => trivial

theorem waits_of_maySleep (h : phase.maySleep notifications = true) : phase.waits = true := by
  cases phase with
  | loaded | announced | waiting | sleeping => rfl
  | _ => cases h

/-- Who may sleep after some notifications might have slept before them. -/
theorem maySleep_of_le (h : phase.Loaded notifications) (hle : notifications ≤ notifications')
    (hmay : phase.maySleep notifications' = true) : phase.maySleep notifications = true := by
  cases phase with
  | loaded | announced | waiting =>
    have hcurrent := of_decide_eq_true hmay
    exact decide_eq_true (le_antisymm h.2 (hle.trans_eq hcurrent.symm))
  | sleeping => rfl
  | _ => cases hmay

/-- After a notification only those may sleep who already do. -/
theorem sleeping_of_lt (h : phase.Loaded notifications) (hlt : notifications < notifications')
    (hmay : phase.maySleep notifications' = true) : phase = .sleeping := by
  cases phase with
  | loaded | announced | waiting =>
    have hcurrent := of_decide_eq_true hmay
    have hle := h.2
    omega
  | sleeping => rfl
  | _ => cases hmay

end Phase

/-! ### What a step does to the phases -/

section Steps

variable {self : Tid} {before after : Shared Tid} {call moved : Call} {signal : Signal Tid Addr}
  {choice : OpenChoice}

/-- A step is one of the events, or the beginning of a `wait`. -/
theorem openStep_cases (h : openStep self before call choice = some (after, moved, signal)) :
    (∃ choice, Event self before call choice after moved signal) ∨
      (after = before ∧ moved = .wait .load ∧ signal = .silent ∧
        ∃ inside owing, call = .between inside owing) := by
  unfold openStep at h
  split at h
  case h_1 inside owing =>
    obtain ⟨rfl, rfl, rfl⟩ := quiet_eq_some_iff.mp h
    exact .inr ⟨rfl, rfl, rfl, inside, owing, rfl⟩
  case h_2 =>
    obtain ⟨rfl, rfl, rfl⟩ := quiet_eq_some_iff.mp h
    exact .inl ⟨.go, .stay rfl rfl rfl⟩
  case h_3 choice => exact .inl ⟨choice, step_event h⟩
  case h_4 => cases h

/-- A step of a thread that uses the mutex of the model is a step of the thread. -/
theorem openStep_step {choice : Choice} :
    openStep self before call (.step choice) = step self before call choice := by
  cases call <;> rfl

theorem call_of_checked (h : call.phase = .checked) : call = .wait .load := by
  cases call with
  | wait pc => cases pc <;> first | rfl | cases h
  | notifyAll pc inside owing => cases pc <;> cases h
  | notifyOne pc inside owing => cases h
  | _ => cases h

/-- A step makes the notifications one more or leaves them. -/
theorem Event.notifications_le {choice : Choice}
    (h : Event self before call choice after moved signal) :
    before.notifications ≤ after.notifications := by
  cases h
  case notify inside owing bumped hafter hbefore hphase hsignal =>
    rw [hafter]
    exact Nat.le_succ _
  case stay hafter hphase hsignal => exact (congrArg Shared.notifications hafter).ge
  case announce hafter hphase hsignal => rw [hafter]
  case sleep hafter hphase hsignal => rw [hafter]
  all_goals
    rename_i hafter _ _ _
    rw [hafter]

/-- The phase after a step: the thread has loaded `counter` just now or before, and it sleeps only
if it has seen `counter` at what it has loaded. -/
theorem Event.loaded {choice : Choice} (h : Event self before call choice after moved signal)
    (hcounter : before.counter = before.notifications % 2 ^ 32)
    (hloaded : call.phase.Loaded before.notifications) :
    moved.phase.Loaded after.notifications := by
  have hle := h.notifications_le
  cases h
  case stay hafter hphase hsignal => exact hphase ▸ hloaded.mono hle
  case load hafter hbefore hphase hsignal =>
    rw [hphase, hafter]
    exact ⟨hcounter, le_rfl⟩
  case announce state loadedAt hcall hafter hphase hsignal =>
    rw [hcall] at hloaded
    exact hphase ▸ ⟨hloaded.1, hloaded.2.trans hle⟩
  case release state loadedAt hafter hbefore hphase hsignal =>
    rw [hbefore] at hloaded
    exact hphase ▸ ⟨hloaded.1, hloaded.2.trans hle⟩
  all_goals
    rename_i hphase _
    rw [hphase]
    trivial

/-- A step puts only such a thread on its way to sleep that was on it before. Assumes: the step is
not a load of `counter` in `wait`, and fewer than `2^32` notifications have come since the load if
it is the sleep. -/
theorem Event.maySleep {choice : Choice} (h : Event self before call choice after moved signal)
    (hcounter : before.counter = before.notifications % 2 ^ 32)
    (hloaded : call.phase.Loaded before.notifications) (hentry : call ≠ .wait .load)
    (hfew : ∀ state loadedAt, call = .wait (.wait state loadedAt) →
      before.notifications < loadedAt + 2 ^ 32)
    (hmay : moved.phase.maySleep after.notifications = true) :
    call.phase.maySleep before.notifications = true := by
  have hle := h.notifications_le
  cases h
  case stay hafter hphase hsignal => exact Phase.maySleep_of_le hloaded hle (hphase ▸ hmay)
  case load hafter hbefore hphase hsignal => exact absurd (call_of_checked hbefore) hentry
  case announce state loadedAt hcall hafter hphase hsignal =>
    rw [hphase, hafter] at hmay
    rw [hcall]
    exact hmay
  case release state loadedAt hafter hbefore hphase hsignal =>
    rw [hphase, hafter] at hmay
    rw [hbefore]
    exact hmay
  case sleep state loadedAt hcall hchoice hequal hafter hphase hsignal =>
    have hlt := hfew state loadedAt hcall
    rw [hcall] at hloaded ⊢
    obtain ⟨hstate, hpast⟩ : state = loadedAt % 2 ^ 32 ∧ loadedAt ≤ before.notifications := hloaded
    have hcurrent : loadedAt = before.notifications := by omega
    exact decide_eq_true hcurrent
  all_goals
    rename_i hphase _
    rw [hphase] at hmay
    cases hmay

/-- A thread that sleeps goes on sleeping or may not sleep any more. -/
theorem Event.sleeping {choice : Choice} (h : Event self before call choice after moved signal)
    (hasleep : call.phase = .sleeping)
    (hmay : moved.phase.maySleep after.notifications = true) : moved.phase = .sleeping := by
  cases h
  case stay hafter hphase hsignal => exact hphase.trans hasleep
  case announce state loadedAt hcall hafter hphase hsignal =>
    rw [hcall] at hasleep
    cases hasleep
  case sleep state loadedAt hcall hchoice hequal hafter hphase hsignal => exact hphase
  case wakeUp hafter hbefore hphase hsignal =>
    rw [hphase] at hmay
    cases hmay
  all_goals
    rename_i hbefore _ _
    exact absurd (hbefore.symm.trans hasleep) nofun

end Steps

/-! ### Runs -/

section Runs

variable [DecidableEq Tid] [Fintype Tid] {predicate : Bool}
  {p p' start : Pool Tid (Shared Tid) Call} {label : Label Tid OpenChoice}

/-- Any number of threads that use one condition variable, each with any mutex. -/
def openSystem (Tid : Type) [DecidableEq Tid] [Fintype Tid] (predicate : Bool) :
    System (Pool Tid (Shared Tid) Call) (Label Tid OpenChoice) :=
  (openMachine Tid).system (new Tid predicate)

/-- Threads that all use the mutex of the model are among the threads that use any. -/
theorem reachable_openSystem {ok : Pool Tid (Shared Tid) Call → Label Tid Choice → Prop}
    (h : (system Tid predicate).ReachableWhen ok p) : (openSystem Tid predicate).Reachable p := by
  refine System.ReachableWhen.map (M := system Tid predicate) (N := openSystem Tid predicate) id
    rfl ?_ h
  intro p label p' _ _ hmove
  refine .inr ⟨⟨label.thread, .step label.choice, label.woken⟩, trivial, ?_⟩
  show (openSystem Tid predicate).step p _ = some p'
  rw [← hmove]
  simp only [openSystem, Machine.system, openMachine, openStep_step]
  rfl

/-- A step of the pool is a step of one thread, whose wake-up reaches the threads as in `system`. -/
theorem open_cases (hmove : ((openMachine Tid).system start).step p label = some p') :
    ∃ moved signal,
      openStep label.thread p.shared (p.threads label.thread) label.choice =
          some (p'.shared, moved, signal) ∧
        (machine Tid).Delivered signal (update p.threads label.thread moved) p'.threads := by
  obtain ⟨moved, signal, hlocal, hdelivered⟩ := Machine.step_cases hmove
  rw [← signal.map_id] at hdelivered
  have hasleep (call : Call) (addr : Addr) : (openMachine Tid).asleepOn call = some (id addr) ↔
      (machine Tid).asleepOn (id call) = some addr := .rfl
  exact ⟨moved, signal, hlocal, hdelivered.map id id hasleep (fun _ _ _ ↦ rfl) fun _ ↦ rfl⟩

/-- What the words count: `waiting` the threads between the `fetch_add` and the `fetch_sub` of
`wait` and `counter` the notifications, each up to a multiple of `2^32`. -/
structure Tallied (p : Pool Tid (Shared Tid) Call) : Prop where
  counter : p.shared.counter = p.shared.notifications % 2 ^ 32
  waiting : p.shared.waiting = counted p % 2 ^ 32
  loaded : ∀ t, (p.threads t).phase.Loaded p.shared.notifications

/-- The effect of a step on `waiting`, up to a multiple of `2^32`. -/
theorem waiting_mod_step (h : p.shared.waiting = counted p % 2 ^ 32)
    (hmove : ((openMachine Tid).system start).step p label = some p') :
    p'.shared.waiting = counted p' % 2 ^ 32 := by
  obtain ⟨moved, signal, hlocal, hdelivered⟩ := open_cases hmove
  have htotal : counted p' = total (fun call : Call ↦ if call.phase.counted then 1 else 0)
      (update p.threads label.thread moved) :=
    total_congr fun t ↦ Delivered.phase_eq (fun phase ↦ if phase.counted then 1 else 0) rfl
      hdelivered t
  have hupdate := total_update (fun call : Call ↦ if call.phase.counted then 1 else 0)
    p.threads label.thread moved
  rw [← htotal] at hupdate
  simp only [← counted.eq_def] at hupdate
  rcases openStep_cases hlocal with ⟨choice, hevent⟩ | ⟨hafter, rfl, -, inside, owing, hcall⟩
  · rcases hevent.waiting_cases with ⟨hsame, hkept⟩ | ⟨-, hadd, hout, hin⟩ | ⟨hsub, hin, hout⟩
    · rw [hkept] at hupdate
      rw [hsame, h, Nat.add_right_cancel hupdate]
    · simp only [hout, hin, if_true, Bool.false_eq_true, if_false] at hupdate
      rw [hadd, h, addU32]
      omega
    · simp only [hout, hin, if_true, Bool.false_eq_true, if_false] at hupdate
      rw [hsub, h, subU32]
      omega
  · rw [hcall] at hupdate
    rw [hafter, h, Nat.add_right_cancel hupdate]

/-- One step keeps what the words count. -/
theorem tallied_step (h : Tallied p)
    (hmove : ((openMachine Tid).system start).step p label = some p') : Tallied p' := by
  obtain ⟨moved, signal, hlocal, hdelivered⟩ := open_cases hmove
  have hphase (phase : Phase) (t : Tid) (hbefore : (update p.threads label.thread moved t).phase =
      phase) (hloaded : phase.Loaded p'.shared.notifications) :
      (p'.threads t).phase.Loaded p'.shared.notifications := by
    rcases hdelivered.thread t with hsame | ⟨addr, hasleep, hwoken⟩ | hsame
    · rw [hsame, hbefore]
      exact hloaded
    · cases addr
      rw [hwoken, show ((machine Tid).wake _).phase = _ from phase_wake (asleepOn_iff.mp hasleep)]
      trivial
    · rw [hsame]
      exact hbefore.symm ▸ hloaded
  have hkept (hle : p.shared.notifications ≤ p'.shared.notifications)
      (hmoved : moved.phase.Loaded p'.shared.notifications) (t : Tid) :
      (p'.threads t).phase.Loaded p'.shared.notifications := by
    by_cases ht : t = label.thread
    · subst ht
      exact hphase _ _ rfl (by rw [update_self]; exact hmoved)
    · exact hphase _ _ rfl (by rw [update_of_ne ht]; exact (h.loaded t).mono hle)
  rcases openStep_cases hlocal with ⟨choice, hevent⟩ | ⟨hafter, rfl, -, -⟩
  · exact ⟨hevent.counter_eq h.counter, waiting_mod_step h.waiting hmove,
      hkept hevent.notifications_le (hevent.loaded h.counter (h.loaded label.thread))⟩
  · exact ⟨by rw [hafter]; exact h.counter, waiting_mod_step h.waiting hmove,
      hkept (by rw [hafter]) trivial⟩

/-- In every state of every run the words count what they should. -/
theorem tallied {ok : Pool Tid (Shared Tid) Call → Label Tid OpenChoice → Prop}
    (h : (openSystem Tid predicate).ReachableWhen ok p) : Tallied p := by
  refine h.invariant ?_ fun p label p' _ htallied _ hmove ↦ tallied_step htallied hmove
  have hnobody : counted (new Tid predicate) = 0 := (total_eq_zero_iff _ _).mpr fun _ ↦ rfl
  refine ⟨rfl, ?_, fun _ ↦ trivial⟩
  show 0 = counted (new Tid predicate) % 2 ^ 32
  rw [hnobody, Nat.zero_mod]

/-! ### Who may fall asleep -/

/-- The condition on the steps after some moment: nobody enters `wait` anew, that is, loads
`counter`, and fewer than `2^32` notifications fall between a load of `counter` and the sleep. -/
structure NoEntry (p : Pool Tid (Shared Tid) Call) (label : Label Tid OpenChoice) : Prop where
  entry : p.threads label.thread ≠ .wait .load
  few : ∀ state loadedAt, p.threads label.thread = .wait (.wait state loadedAt) →
    p.shared.notifications < loadedAt + 2 ^ 32

/-- The number of threads inside `wait` that have loaded `counter` and have not returned from the
futex wait. -/
def waiters (p : Pool Tid (Shared Tid) Call) : ℕ :=
  (Finset.univ.filter fun t ↦ (p.threads t).phase.waits = true).card

/-- A thread is asleep, or it will be at the end of some run in which nobody enters `wait` anew. -/
def CanSleep (p : Pool Tid (Shared Tid) Call) (t : Tid) : Prop :=
  ∃ p', ((openMachine Tid).system p).ReachableWhen NoEntry p' ∧ p'.threads t = .wait .asleep

/-- The threads that may sleep: those asleep, and those whose loaded counter is current. -/
def drowsy (p : Pool Tid (Shared Tid) Call) : Finset Tid :=
  Finset.univ.filter fun t ↦ (p.threads t).phase.maySleep p.shared.notifications = true

omit [DecidableEq Tid] in
theorem mem_drowsy {t : Tid} :
    t ∈ drowsy p ↔ (p.threads t).phase.maySleep p.shared.notifications = true := by
  simp [drowsy]

omit [DecidableEq Tid] in
theorem card_drowsy_le : (drowsy p).card ≤ waiters p := by
  refine Finset.card_le_card fun t ht ↦ ?_
  rw [Finset.mem_filter]
  exact ⟨Finset.mem_univ t, Phase.waits_of_maySleep (mem_drowsy.mp ht)⟩

/-- What a step does to a thread that may sleep after it: it might have slept before, and if it was
asleep, it still is. -/
theorem drowsy_step (h : Tallied p) (hok : NoEntry p label)
    (hmove : ((openMachine Tid).system start).step p label = some p') {t : Tid}
    (ht : t ∈ drowsy p') :
    t ∈ drowsy p ∧ ((p.threads t).phase = .sleeping → (p'.threads t).phase = .sleeping) := by
  rw [mem_drowsy] at ht ⊢
  obtain ⟨moved, signal, hlocal, hdelivered⟩ := open_cases hmove
  -- a woken thread does not sleep
  have hsame : p'.threads t = update p.threads label.thread moved t := by
    rcases hdelivered.thread t with hsame | ⟨addr, hasleep, hwoken⟩ | hsame
    · exact hsame
    · cases addr
      rw [hwoken, show ((machine Tid).wake _).phase = _ from phase_wake (asleepOn_iff.mp hasleep)]
        at ht
      cases ht
    · exact hsame
  rw [hsame] at ht ⊢
  rcases openStep_cases hlocal with ⟨choice, hevent⟩ | ⟨hafter, rfl, -, -⟩
  · by_cases hself : t = label.thread
    · subst hself
      rw [update_self] at ht ⊢
      exact ⟨hevent.maySleep h.counter (h.loaded _) hok.entry hok.few ht,
        fun hasleep ↦ hevent.sleeping hasleep ht⟩
    · rw [update_of_ne hself] at ht ⊢
      exact ⟨Phase.maySleep_of_le (h.loaded t) hevent.notifications_le ht, id⟩
  · by_cases hself : t = label.thread
    · subst hself
      rw [update_self] at ht
      cases ht
    · rw [update_of_ne hself] at ht ⊢
      rw [hafter] at ht
      exact ⟨ht, id⟩

/-- Who may not sleep now will not. -/
theorem mem_drowsy_of_canSleep (h : Tallied p) {t : Tid} (hsleep : CanSleep p t) :
    t ∈ drowsy p := by
  obtain ⟨p', hrun, hasleep⟩ := hsleep
  have hlast : t ∈ drowsy p' := by
    rw [mem_drowsy, hasleep]
    rfl
  have hkept : Tallied p' ∧ (t ∈ drowsy p' → t ∈ drowsy p) := by
    have hstart : Tallied p ∧ (t ∈ drowsy p → t ∈ drowsy p) := ⟨h, id⟩
    refine hrun.invariant (P := fun q ↦ Tallied q ∧ (t ∈ drowsy q → t ∈ drowsy p)) hstart ?_
    rintro q label q' - ⟨htallied, hback⟩ hok hmove
    exact ⟨tallied_step htallied hmove, fun ht ↦ hback (drowsy_step htallied hok hmove ht).1⟩
  exact hkept.2 hlast

/-! ### The notifications since some moment -/

/-- Which threads have done the `fetch_add` of a `notify_one`, and how many calls of these have
completed. -/
structure Notices (Tid : Type) where
  begun : Tid → Bool
  completed : ℕ

/-- The runs from some moment on, with the calls of `notify_one` that begin and complete in them. A
`wake_one` whose `fetch_add` came before does not count. -/
def noticing (start : Pool Tid (Shared Tid) Call) :
    System (Pool Tid (Shared Tid) Call × Notices Tid) (Label Tid OpenChoice) :=
  ((openMachine Tid).system start).recording ⟨fun _ ↦ false, 0⟩ fun notices p label _ ↦
    match p.threads label.thread with
    | .notifyOne .fetchAdd _ _ => { notices with begun := update notices.begun label.thread true }
    | .notifyOne .wakeOne _ _ =>
      if notices.begun label.thread then { notices with completed := notices.completed + 1 }
      else notices
    | _ => notices

/-- The steps of `notify_one`. -/
theorem notifyOne_step {pc : NotifyOnePc} {inside owing : Bool}
    (hcall : p.threads label.thread = .notifyOne pc inside owing)
    (hmove : ((openMachine Tid).system start).step p label = some p') :
    (pc = .fetchAdd ∧ p'.shared = p.shared.notify ∧
        p'.threads = update p.threads label.thread (.notifyOne .wakeOne inside owing)) ∨
      (pc = .wakeOne ∧ p'.shared = p.shared ∧ (machine Tid).Delivered (.wakeOne .counter)
        (update p.threads label.thread (.between inside owing)) p'.threads) := by
  obtain ⟨moved, signal, hlocal, hdelivered⟩ := open_cases hmove
  rw [hcall] at hlocal
  cases hchoice : label.choice with
  | step choice =>
    rw [hchoice, openStep_step] at hlocal
    cases pc <;> cases choice <;> simp only [step, notifyOneStep, reduceCtorEq] at hlocal
    case fetchAdd.go =>
      obtain ⟨hafter, rfl, rfl⟩ := quiet_eq_some_iff.mp hlocal
      exact .inl ⟨rfl, hafter.symm, hdelivered.silent_eq⟩
    case wakeOne.go =>
      obtain ⟨hafter, rfl, rfl⟩ := by simpa using hlocal
      exact .inr ⟨rfl, hafter.symm, hdelivered⟩
  | wait =>
    rw [hchoice] at hlocal
    cases hlocal
  | relock =>
    rw [hchoice] at hlocal
    cases hlocal

/-- After the `fetch_add` of a notification only those may sleep who already do. -/
theorem sleeping_of_notify (h : Tallied p) (hok : NoEntry p label) {inside owing : Bool}
    (hcall : p.threads label.thread = .notifyOne .fetchAdd inside owing)
    (hmove : ((openMachine Tid).system start).step p label = some p') {t : Tid}
    (ht : t ∈ drowsy p') : (p'.threads t).phase = .sleeping := by
  obtain ⟨hbefore, hkept⟩ := drowsy_step h hok hmove ht
  obtain ⟨-, hshared, hthreads⟩ := (notifyOne_step hcall hmove).resolve_right nofun
  have hother : t ≠ label.thread := by
    rintro rfl
    rw [mem_drowsy, hcall] at hbefore
    cases hbefore
  rw [mem_drowsy, hshared, hthreads, update_of_ne hother] at ht
  exact hkept (Phase.sleeping_of_lt (h.loaded t) (Nat.lt_succ_self _) ht)

/-- A `wake_one` takes one of the threads that may sleep, if these are all asleep. -/
theorem card_drowsy_of_wakeOne (h : Tallied p) (hok : NoEntry p label) {inside owing : Bool}
    (hcall : p.threads label.thread = .notifyOne .wakeOne inside owing)
    (hmove : ((openMachine Tid).system start).step p label = some p')
    (hasleep : ∀ t ∈ drowsy p', (p'.threads t).phase = .sleeping) :
    drowsy p' = ∅ ∨ (drowsy p').card < (drowsy p).card := by
  obtain ⟨-, hshared, hdelivered⟩ := (notifyOne_step hcall hmove).resolve_left nofun
  have hsubset : drowsy p' ⊆ drowsy p := fun t ht ↦ (drowsy_step h hok hmove ht).1
  rcases hdelivered.wakeOne_cases with ⟨hthreads, hnobody⟩ | ⟨u, hu, hthreads⟩
  · refine .inl (Finset.eq_empty_of_forall_notMem fun t ht ↦ hnobody t ?_)
    rw [← hthreads]
    exact asleepOn_iff.mpr (hasleep t ht)
  · refine .inr (Finset.card_lt_card (Finset.ssubset_iff_of_subset hsubset |>.mpr ⟨u, ?_, ?_⟩))
    · have hother : u ≠ label.thread := by
        rintro rfl
        rw [update_self] at hu
        cases hu
      rw [update_of_ne hother] at hu
      rw [mem_drowsy, asleepOn_iff.mp hu]
      rfl
    · rw [mem_drowsy, hthreads, update_self,
        show ((machine Tid).wake _).phase = _ from phase_wake (asleepOn_iff.mp hu)]
      exact Bool.false_ne_true

variable {x x' : Pool Tid (Shared Tid) Call × Notices Tid} {k : ℕ}

/-- Once a notification has begun all who may sleep are asleep, and those who may sleep and the
notifications completed are together at most the waiting threads of the beginning, or nobody may
sleep any more. -/
structure Waning (k : ℕ) (x : Pool Tid (Shared Tid) Call × Notices Tid) : Prop where
  tallied : Tallied x.1
  asleep : (∃ t, x.2.begun t = true) → ∀ t ∈ drowsy x.1, (x.1.threads t).phase = .sleeping
  few : (drowsy x.1).card + x.2.completed ≤ k ∨ drowsy x.1 = ∅

/-- One step keeps the invariant. -/
theorem waning_step (h : Waning k x) (hok : NoEntry x.1 label)
    (hmove : (noticing start).step x label = some x') : Waning k x' := by
  obtain ⟨hstep, hnote⟩ := System.recording_step hmove
  have hsubset : drowsy x'.1 ⊆ drowsy x.1 := fun t ht ↦ (drowsy_step h.tallied hok hstep ht).1
  have hstill (hbegun : ∃ t, x.2.begun t = true) (t : Tid) (ht : t ∈ drowsy x'.1) :
      (x'.1.threads t).phase = .sleeping := by
    obtain ⟨hbefore, hkept⟩ := drowsy_step h.tallied hok hstep ht
    exact hkept (h.asleep hbegun t hbefore)
  have hfew : (drowsy x'.1).card + x.2.completed ≤ k ∨ drowsy x'.1 = ∅ := by
    rcases h.few with hle | hempty
    · exact .inl ((Nat.add_le_add_right (Finset.card_le_card hsubset) _).trans hle)
    · exact .inr (Finset.subset_empty.mp (hempty ▸ hsubset))
  have htallied := tallied_step h.tallied hstep
  split at hnote
  case h_1 inside owing hcall =>
    exact ⟨htallied, fun _ t ht ↦ sleeping_of_notify h.tallied hok hcall hstep ht, hnote ▸ hfew⟩
  case h_2 inside owing hcall =>
    split_ifs at hnote with hbegun
    · have hasleep := hstill ⟨_, hbegun⟩
      refine ⟨htallied, fun _ ↦ hasleep, ?_⟩
      rw [hnote]
      rcases card_drowsy_of_wakeOne h.tallied hok hcall hstep hasleep with hempty | hlt
      · exact .inr hempty
      · rcases h.few with hle | hempty
        · exact .inl (by show _ + (_ + 1) ≤ k; omega)
        · rw [hempty, Finset.card_empty] at hlt
          exact absurd hlt (Nat.not_lt_zero _)
    · exact ⟨htallied, fun hbegun ↦ hstill (hnote ▸ hbegun), hnote ▸ hfew⟩
  case h_3 => exact ⟨htallied, fun hbegun ↦ hstill (hnote ▸ hbegun), hnote ▸ hfew⟩

/-- `waiting` is the number of threads between its `fetch_add` and its `fetch_sub`, up to a multiple
of `2^32`. And `notify_one` wakes enough: if from some moment of a run on nobody enters `wait` anew,
then of the threads that were inside `wait` at most as many are asleep, or can still fall asleep, as
they outnumber the calls of `notify_one` that have begun and completed since. -/
theorem notify_one_wakes (h : (openSystem Tid predicate).Reachable p) :
    p.shared.waiting = counted p % 2 ^ 32 ∧
      ∀ x, (noticing p).ReachableWhen (fun x label ↦ NoEntry x.1 label) x →
        {t | CanSleep x.1 t}.ncard ≤ waiters p - x.2.completed := by
  have htallied := tallied h
  refine ⟨htallied.waiting, fun x hrun ↦ ?_⟩
  have hstart : Waning (waiters p) (p, ⟨fun _ ↦ false, 0⟩) :=
    ⟨htallied, fun ⟨_, hbegun⟩ ↦ absurd hbegun Bool.false_ne_true, .inl card_drowsy_le⟩
  have hwaning : Waning (waiters p) x := hrun.invariant (P := Waning (waiters p)) hstart
    fun x label x' _ hwaning hok hmove ↦ waning_step hwaning hok hmove
  have hsleepers : {t | CanSleep x.1 t}.ncard ≤ (drowsy x.1).card := by
    rw [← Set.ncard_coe_finset]
    exact Set.ncard_le_ncard (fun t ht ↦ mem_drowsy_of_canSleep hwaning.tallied ht)
      (drowsy x.1).finite_toSet
  rcases hwaning.few with hle | hempty
  · omega
  · rw [hempty, Finset.card_empty] at hsleepers
    omega

end Runs

/-- `notify_one_wakes` on a run in which three threads are asleep and two others notify at the same
time: one of the three stays asleep. -/
theorem notify_one_wakes_two_of_three :
    ∃ p : Pool (Fin 5) (Shared (Fin 5)) Call,
      (∀ t : Fin 5, t < 3 → p.threads t = .wait .asleep) ∧
      ∃ x, (noticing p).Reachable x ∧ (x.2.completed = 2 ∧ x.1.threads 1 = .wait .asleep) ∧
        {t | CanSleep x.1 t}.ncard ≤ 1 := by
  obtain ⟨p, hrun, hasleep, hthree, hexec⟩ := System.exists_reachableWhen_of_exec
    (M := openSystem (Fin 5) false) (fun _ _ ↦ True)
    (P := fun p ↦ (∀ t : Fin 5, t < 3 → p.threads t = .wait .asleep) ∧ waiters p = 3 ∧
      ((noticing p).exec (fun x label ↦ x.1.threads label.thread ≠ .wait .load ∧
          x.1.shared.notifications < 2 ^ 32) (noticing p).init
        [⟨3, .step .notifyOne, none⟩, ⟨4, .step .notifyOne, none⟩, ⟨3, .step .go, none⟩,
          ⟨4, .step .go, none⟩, ⟨4, .step .go, some 2⟩, ⟨2, .step .go, none⟩,
          ⟨3, .step .go, some 0⟩]).any
          (fun x ↦ decide (x.2.completed = 2 ∧ x.1.threads 1 = .wait .asleep)) = true)
    ([⟨0, .wait, none⟩] ++ List.replicate 4 ⟨0, .step .go, none⟩ ++
      [⟨1, .wait, none⟩] ++ List.replicate 4 ⟨1, .step .go, none⟩ ++
      [⟨2, .wait, none⟩] ++ List.replicate 4 ⟨2, .step .go, none⟩) (by decide)
  obtain ⟨x, hnotified, hcompleted⟩ := System.exists_reachableWhen_of_exec
    (M := noticing p) _ (P := fun x ↦ x.2.completed = 2 ∧ x.1.threads 1 = .wait .asleep) _ hexec
  have hwakes := (notify_one_wakes hrun).2 x (hnotified.mono fun x label ⟨hentry, hbound⟩ ↦
    ⟨hentry, fun _ _ _ ↦ Nat.lt_add_left _ hbound⟩)
  rw [hthree, hcompleted.1] at hwakes
  exact ⟨p, hasleep, x, hnotified.reachable, hcompleted, hwakes⟩

/-- All of a crowd that sleeps is counted. -/
theorem counted_crowd {n : ℕ} {shared : Shared (Option (Fin n))} :
    counted ⟨shared, crowd n n⟩ = n := by
  have hcounted (i : Fin n) : (if (crowd n n (some i)).phase.counted then 1 else 0) = 1 := by
    rw [crowd_some, if_pos i.isLt]
    rfl
  have hnone : (if (crowd n n none).phase.counted then 1 else 0) = 0 := rfl
  simp only [counted, total, Fintype.sum_option, hcounted, hnone, zero_add]
  rw [← Finset.card_eq_sum_ones, Finset.card_univ, Fintype.card_fin]

/-- With `2^32` threads asleep in `wait`, `waiting` reads zero. -/
theorem waiting_wraps :
    ∃ p : Pool (Option (Fin (2 ^ 32))) (Shared (Option (Fin (2 ^ 32)))) Call,
      (openSystem (Option (Fin (2 ^ 32))) false).Reachable p ∧ counted p = 2 ^ 32 ∧
        p.shared.waiting = 0 := by
  have hcrowd := reachable_openSystem (reachable_crowd (2 ^ 32) (2 ^ 32) le_rfl)
  rw [Nat.mod_self] at hcrowd
  exact ⟨_, hcrowd, counted_crowd, rfl⟩

end SyncPrimitives.CondVar
