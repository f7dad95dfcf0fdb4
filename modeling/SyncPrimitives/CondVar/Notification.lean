import SyncPrimitives.CondVar.Model
import Mathlib.Tactic.SplitIfs

/-!
# No notification is lost

A waiting thread loads `counter` and announces itself in `waiting` while it holds the mutex and the
predicate is false; a thread that makes the predicate true increments `counter` afterwards and then
reads `waiting`. So either the sleep of the first sees that `counter` has moved, or the second sees
that somebody is waiting. `Event` lists what a step does to the shared state and to the phase of its
thread; `Phase.Fits` says what a phase promises, `Promised` is the invariant.
-/

set_option autoImplicit false
set_option relaxedAutoImplicit false

namespace SyncPrimitives.CondVar

open Concurrency Function

/-- The phases of a thread. Outside `wait` it is `free`, and `bumped` says whether its `notify_all`
has incremented `counter`; inside `wait` it has found the predicate false, loaded `counter`,
announced itself in `waiting`, unlocked the mutex, and sleeps or is on its way back. -/
inductive Phase
  | free (inside owing bumped : Bool)
  | checked
  | loaded (state loadedAt : ℕ)
  | announced (state loadedAt : ℕ)
  | waiting (state loadedAt : ℕ)
  | sleeping
  | returning
  deriving DecidableEq

namespace Phase

/-- The thread holds the mutex. -/
def inside : Phase → Bool
  | .free inside _ _ => inside
  | .checked => true
  | .loaded _ _ => true
  | .announced _ _ => true
  | _ => false

/-- The thread is counted in `waiting`. -/
def counted : Phase → Bool
  | .announced _ _ => true
  | .waiting _ _ => true
  | .sleeping => true
  | .returning => true
  | _ => false

/-- The thread has made the predicate true and has not completed a `notify_all` since. -/
def owing : Phase → Bool
  | .free _ owing _ => owing
  | _ => false

/-- The thread has made the predicate true and has not incremented `counter` since. -/
def pledged : Phase → Bool
  | .free _ owing bumped => owing && !bumped
  | _ => false

end Phase

/-- The phase of a position. -/
def Call.phase : Call → Phase
  | .between inside owing => .free inside owing false
  | .lock _ => .free false false false
  | .check => .free true false false
  | .wait .load => .checked
  | .wait (.fetchAdd state loadedAt) => .loaded state loadedAt
  | .wait (.unlock state loadedAt) => .announced state loadedAt
  | .wait (.wait state loadedAt) => .waiting state loadedAt
  | .wait .asleep => .sleeping
  | .wait .fetchSub => .returning
  | .notifyAll .fetchAdd inside owing => .free inside owing false
  | .notifyAll _ inside owing => .free inside owing true
  | .notifyOne _ inside owing => .free inside owing false

/-- The steps of a thread, by what they do to the shared state and to its phase. -/
inductive Event {Tid : Type} (self : Tid) (before : Shared Tid) (call : Call) (choice : Choice)
    (after : Shared Tid) (moved : Call) (signal : Signal Tid Addr) : Prop
  | stay (hafter : after = before) (hphase : moved.phase = call.phase) (hsignal : signal = .silent)
  | lock (hfree : before.holder = none) (hafter : after = { before with holder := some self })
      (hbefore : call.phase = .free false false false)
      (hphase : moved.phase = .free true false false) (hsignal : signal = .silent)
  | unlock (owing : Bool) (hafter : after = { before with holder := none })
      (hbefore : call.phase = .free true owing false)
      (hphase : moved.phase = .free false owing false) (hsignal : signal = .silent)
  | check (hpredicate : before.predicate = false) (hafter : after = before)
      (hbefore : call.phase = .free true false false) (hphase : moved.phase = .checked)
      (hsignal : signal = .silent)
  | load (hafter : after = before) (hbefore : call.phase = .checked)
      (hphase : moved.phase = .loaded before.counter before.notifications)
      (hsignal : signal = .silent)
  | announce (state loadedAt : ℕ) (hcall : call = .wait (.fetchAdd state loadedAt))
      (hafter : after = { before with waiting := addU32 before.waiting 1 })
      (hphase : moved.phase = .announced state loadedAt) (hsignal : signal = .silent)
  | release (state loadedAt : ℕ) (hafter : after = { before with holder := none })
      (hbefore : call.phase = .announced state loadedAt)
      (hphase : moved.phase = .waiting state loadedAt) (hsignal : signal = .silent)
  | sleep (state loadedAt : ℕ) (hcall : call = .wait (.wait state loadedAt))
      (hchoice : choice = .go) (hcounter : before.counter = state) (hafter : after = before)
      (hphase : moved.phase = .sleeping) (hsignal : signal = .silent)
  | wakeUp (hafter : after = before)
      (hbefore : call.phase = .sleeping ∨ ∃ state loadedAt, call.phase = .waiting state loadedAt)
      (hphase : moved.phase = .returning) (hsignal : signal = .silent)
  | leave (hafter : after = { before with waiting := subU32 before.waiting 1 })
      (hbefore : call.phase = .returning) (hphase : moved.phase = .free false false false)
      (hsignal : signal = .silent)
  | write (value owing : Bool) (hafter : after = { before with predicate := value })
      (hbefore : call.phase = .free true owing false)
      (hphase : moved.phase = .free true (owing || value) false) (hsignal : signal = .silent)
  | notify (inside owing bumped : Bool) (hafter : after = before.notify)
      (hbefore : call.phase = .free inside owing false)
      (hphase : moved.phase = .free inside owing bumped) (hsignal : signal = .silent)
  | skip (inside owing : Bool) (hnone : before.waiting = 0) (hafter : after = before)
      (hbefore : call.phase = .free inside owing true)
      (hphase : moved.phase = .free inside false false) (hsignal : signal = .silent)
  | wakeAll (inside owing : Bool) (hafter : after = before)
      (hbefore : call.phase = .free inside owing true)
      (hphase : moved.phase = .free inside false false) (hsignal : signal = .wakeAll .counter)
  | wakeOne (inside owing : Bool) (hafter : after = before)
      (hbefore : call.phase = .free inside owing false)
      (hphase : moved.phase = .free inside owing false) (hsignal : signal = .wakeOne .counter)

section Steps

variable {Tid : Type} {self : Tid} {before after : Shared Tid} {call moved : Call}
  {signal : Signal Tid Addr} {choice : Choice}

theorem quiet_eq_some_iff :
    quiet before call = some (after, moved, signal) ↔
      before = after ∧ call = moved ∧ .silent = signal := by
  simp [quiet]

theorem waitStep_event {pc : WaitPc}
    (h : waitStep before pc choice = some (after, moved, signal)) :
    Event self before (.wait pc) choice after moved signal := by
  cases pc <;> cases choice <;> simp only [waitStep, reduceCtorEq] at h
  case load.go =>
    obtain ⟨rfl, rfl, rfl⟩ := quiet_eq_some_iff.mp h
    exact .load rfl rfl rfl rfl
  case fetchAdd.go state loadedAt =>
    obtain ⟨rfl, rfl, rfl⟩ := quiet_eq_some_iff.mp h
    exact .announce state loadedAt rfl rfl rfl rfl
  case unlock.go state loadedAt =>
    obtain ⟨rfl, rfl, rfl⟩ := quiet_eq_some_iff.mp h
    exact .release state loadedAt rfl rfl rfl rfl
  case wait.go state loadedAt =>
    split_ifs at h with hcounter
    all_goals obtain ⟨rfl, rfl, rfl⟩ := quiet_eq_some_iff.mp h
    · exact .sleep state loadedAt rfl rfl hcounter rfl rfl rfl
    · exact .wakeUp rfl (.inr ⟨state, loadedAt, rfl⟩) rfl rfl
  case wait.spurious state loadedAt =>
    obtain ⟨rfl, rfl, rfl⟩ := quiet_eq_some_iff.mp h
    exact .wakeUp rfl (.inr ⟨state, loadedAt, rfl⟩) rfl rfl
  case asleep.spurious =>
    obtain ⟨rfl, rfl, rfl⟩ := quiet_eq_some_iff.mp h
    exact .wakeUp rfl (.inl rfl) rfl rfl
  case fetchSub.go =>
    obtain ⟨rfl, rfl, rfl⟩ := quiet_eq_some_iff.mp h
    exact .leave rfl rfl rfl rfl

theorem notifyAllStep_event {pc : NotifyAllPc} {inside owing : Bool}
    (h : notifyAllStep before inside owing pc choice = some (after, moved, signal)) :
    Event self before (.notifyAll pc inside owing) choice after moved signal := by
  cases pc <;> cases choice <;> simp only [notifyAllStep, reduceCtorEq] at h
  case fetchAdd.go =>
    obtain ⟨rfl, rfl, rfl⟩ := quiet_eq_some_iff.mp h
    exact .notify inside owing true rfl rfl rfl rfl
  case load.go =>
    split_ifs at h with hwaiting
    all_goals obtain ⟨rfl, rfl, rfl⟩ := quiet_eq_some_iff.mp h
    · exact .stay rfl rfl rfl
    · exact .skip inside owing (not_not.mp hwaiting) rfl rfl rfl rfl
  case wakeAll.go =>
    obtain ⟨rfl, rfl, rfl⟩ := by simpa using h
    exact .wakeAll inside owing rfl rfl rfl rfl

theorem notifyOneStep_event {pc : NotifyOnePc} {inside owing : Bool}
    (h : notifyOneStep before inside owing pc choice = some (after, moved, signal)) :
    Event self before (.notifyOne pc inside owing) choice after moved signal := by
  cases pc <;> cases choice <;> simp only [notifyOneStep, reduceCtorEq] at h
  case fetchAdd.go =>
    obtain ⟨rfl, rfl, rfl⟩ := quiet_eq_some_iff.mp h
    exact .notify inside owing false rfl rfl rfl rfl
  case wakeOne.go =>
    obtain ⟨rfl, rfl, rfl⟩ := by simpa using h
    exact .wakeOne inside owing rfl rfl rfl rfl

theorem betweenStep_event {inside owing : Bool}
    (h : betweenStep before inside owing choice = some (after, moved, signal)) :
    Event self before (.between inside owing) choice after moved signal := by
  cases choice <;> simp only [betweenStep, reduceCtorEq] at h
  case consume | lock =>
    split_ifs at h with hbusy
    obtain ⟨rfl, rfl, rfl⟩ := quiet_eq_some_iff.mp h
    simp only [Bool.or_eq_true, not_or, Bool.not_eq_true] at hbusy
    exact .stay rfl (by rw [hbusy.1, hbusy.2]; rfl) rfl
  case write value =>
    split_ifs at h with hinside
    obtain ⟨rfl, rfl, rfl⟩ := quiet_eq_some_iff.mp h
    exact .write value owing rfl (by rw [hinside]; rfl) rfl rfl
  case unlock =>
    split_ifs at h with hinside
    obtain ⟨rfl, rfl, rfl⟩ := quiet_eq_some_iff.mp h
    exact .unlock owing rfl (by rw [hinside]; rfl) rfl rfl
  case notifyAll | notifyOne =>
    obtain ⟨rfl, rfl, rfl⟩ := quiet_eq_some_iff.mp h
    exact .stay rfl rfl rfl

/-- Every step of a thread is one of the events. -/
theorem step_event (h : step self before call choice = some (after, moved, signal)) :
    Event self before call choice after moved signal := by
  unfold step at h
  split at h
  case h_1 => exact betweenStep_event h
  case h_2 consumer =>
    split_ifs at h with hfree
    all_goals obtain ⟨rfl, rfl, rfl⟩ := quiet_eq_some_iff.mp h
    all_goals exact .lock (Option.isNone_iff_eq_none.mp hfree.2) rfl rfl rfl rfl
  case h_3 =>
    split_ifs at h with hgo hpredicate
    all_goals obtain ⟨rfl, rfl, rfl⟩ := quiet_eq_some_iff.mp h
    · exact .stay rfl rfl rfl
    · exact .check (Bool.eq_false_iff.mpr hpredicate) rfl rfl rfl rfl
  case h_4 => exact waitStep_event h
  case h_5 => exact notifyAllStep_event h
  case h_6 => exact notifyOneStep_event h

theorem asleepOn_iff : asleepOn call = some .counter ↔ call.phase = .sleeping := by
  cases call with
  | wait pc => cases pc <;> simp [asleepOn, Call.phase]
  | notifyAll pc inside owing => cases pc <;> simp [asleepOn, Call.phase]
  | _ => simp [asleepOn, Call.phase]

theorem phase_wake (h : call.phase = .sleeping) : (wake call).phase = .returning := by
  cases call with
  | wait pc => cases pc <;> first | rfl | cases h
  | notifyAll pc inside owing => cases pc <;> cases h
  | _ => cases h

end Steps

/-! ### The invariant -/

/-- What a phase promises, given whether some thread is `pledged` and whether some thread is
`owing`: from the check to the unlocking the predicate is false; a thread that has yet to sleep on
the current counter has an increment ahead of it if the predicate is true; and for a thread that is
asleep with a true predicate a `notify_all` is still to be completed. -/
def Phase.Fits {Tid : Type} (shared : Shared Tid) (pledged owing : Prop) : Phase → Prop
  | .checked => shared.predicate = false
  | .loaded state loadedAt =>
    shared.predicate = false ∧ state = loadedAt % 2 ^ 32 ∧ loadedAt ≤ shared.notifications
  | .announced state loadedAt =>
    shared.predicate = false ∧ state = loadedAt % 2 ^ 32 ∧ loadedAt ≤ shared.notifications
  | .waiting state loadedAt =>
    state = loadedAt % 2 ^ 32 ∧ loadedAt ≤ shared.notifications ∧
      (loadedAt = shared.notifications → shared.predicate = true → pledged)
  | .sleeping => shared.predicate = true → owing
  | _ => True

namespace Phase.Fits

variable {Tid : Type} {before after : Shared Tid} {phase : Phase}
  {pledged pledged' owing owing' : Prop}

theorem mono (h : phase.Fits before pledged owing) (hpredicate : after.predicate = before.predicate)
    (hnotifications : after.notifications = before.notifications) (hpledged : pledged → pledged')
    (howing : phase = .sleeping → owing → owing') : phase.Fits after pledged' owing' := by
  cases phase with
  | waiting state loadedAt =>
    simp only [Fits, hpredicate, hnotifications] at h ⊢
    exact ⟨h.1, h.2.1, fun hcurrent htrue ↦ hpledged (h.2.2 hcurrent htrue)⟩
  | sleeping =>
    simp only [Fits, hpredicate] at h ⊢
    exact fun htrue ↦ howing rfl (h htrue)
  | checked | loaded | announced => simpa only [Fits, hpredicate, hnotifications] using h
  | free | returning => trivial

/-- Nobody is about to sleep on a counter that has just been incremented. -/
theorem notify (h : phase.Fits before pledged owing) (howing : owing → owing') :
    phase.Fits before.notify pledged' owing' := by
  cases phase with
  | loaded | announced => exact ⟨h.1, h.2.1, h.2.2.trans (Nat.le_succ _)⟩
  | waiting state loadedAt =>
    refine ⟨h.1, h.2.1.trans (Nat.le_succ _), fun hcurrent ↦ ?_⟩
    have hle := h.2.1
    simp only [Shared.notify] at hcurrent
    omega
  | sleeping => exact fun htrue ↦ howing (h htrue)
  | _ => exact h

/-- Whoever writes the predicate holds the mutex, so nobody else has just found it false. -/
theorem write (h : phase.Fits before pledged owing) {value : Bool} (houtside : phase.inside = false)
    (hpledged : value = true → pledged') (howing : value = true → owing') :
    phase.Fits { before with predicate := value } pledged' owing' := by
  cases phase with
  | checked | loaded | announced => cases houtside
  | waiting state loadedAt => exact ⟨h.1, h.2.1, fun _ htrue ↦ hpledged htrue⟩
  | sleeping => exact howing
  | _ => exact h

end Phase.Fits

section Runs

variable {Tid : Type} [DecidableEq Tid] [Fintype Tid] {predicate : Bool}
  {p p' : Pool Tid (Shared Tid) Call} {label : Label Tid Choice}

omit [DecidableEq Tid] in
/-- The number of threads between the `fetch_add` and the `fetch_sub` of `wait`. -/
def counted (p : Pool Tid (Shared Tid) Call) : ℕ :=
  total (fun call ↦ if call.phase.counted then 1 else 0) p.threads

omit [DecidableEq Tid] [Fintype Tid] in
/-- Some thread has made the predicate true and has not incremented `counter` since. -/
def SomePledged (p : Pool Tid (Shared Tid) Call) : Prop :=
  ∃ t, (p.threads t).phase.pledged = true

omit [DecidableEq Tid] [Fintype Tid] in
/-- Some thread has made the predicate true and has not completed a `notify_all` since. -/
def SomeOwing (p : Pool Tid (Shared Tid) Call) : Prop :=
  ∃ t, (p.threads t).phase.owing = true

omit [DecidableEq Tid] in
/-- The words count what they should, the holder of the mutex is the thread inside it, and every
phase keeps its promise. -/
structure Promised (p : Pool Tid (Shared Tid) Call) : Prop where
  counter : p.shared.counter = p.shared.notifications % 2 ^ 32
  waiting : p.shared.waiting = counted p
  bounded : p.shared.waiting < 2 ^ 32
  holder : ∀ t, (p.threads t).phase.inside = true ↔ p.shared.holder = some t
  fits : ∀ t, (p.threads t).phase.Fits p.shared (SomePledged p) (SomeOwing p)

/-- Fewer than `2^32` notifications fall between the load of `counter` in `wait` and the sleep. -/
def FewNotifications (p : Pool Tid (Shared Tid) Call) (label : Label Tid Choice) : Prop :=
  ∀ state loadedAt, p.threads label.thread = .wait (.wait state loadedAt) →
    p.shared.notifications < loadedAt + 2 ^ 32

/-- Fewer than `2^32` threads are at the same time between the `fetch_add` and the `fetch_sub` of
`wait`. -/
def FewWaiting (p : Pool Tid (Shared Tid) Call) (label : Label Tid Choice) : Prop :=
  ∀ state loadedAt, p.threads label.thread = .wait (.fetchAdd state loadedAt) →
    counted p + 1 < 2 ^ 32

/-! ### The steps keep the invariant -/

section Effects

variable {self : Tid} {before after : Shared Tid} {call moved : Call} {choice : Choice}
  {signal : Signal Tid Addr}

omit [DecidableEq Tid] [Fintype Tid] in
theorem Event.counter_eq (h : Event self before call choice after moved signal)
    (hbefore : before.counter = before.notifications % 2 ^ 32) :
    after.counter = after.notifications % 2 ^ 32 := by
  have hkept (hcounter : after.counter = before.counter)
      (hnotifications : after.notifications = before.notifications) :
      after.counter = after.notifications % 2 ^ 32 := by
    rw [hcounter, hnotifications, hbefore]
  cases h with
  | notify inside owing bumped hafter =>
    simp only [hafter, Shared.notify, hbefore, addU32]
    omega
  | stay hafter => exact hkept (by rw [hafter]) (by rw [hafter])
  | lock _ hafter | check _ hafter => exact hkept (by rw [hafter]) (by rw [hafter])
  | load hafter | wakeUp hafter | leave hafter => exact hkept (by rw [hafter]) (by rw [hafter])
  | unlock _ hafter => exact hkept (by rw [hafter]) (by rw [hafter])
  | release _ _ hafter | write _ _ hafter => exact hkept (by rw [hafter]) (by rw [hafter])
  | announce _ _ _ hafter | skip _ _ _ hafter => exact hkept (by rw [hafter]) (by rw [hafter])
  | wakeAll _ _ hafter | wakeOne _ _ hafter => exact hkept (by rw [hafter]) (by rw [hafter])
  | sleep _ _ _ _ _ hafter => exact hkept (by rw [hafter]) (by rw [hafter])

omit [DecidableEq Tid] [Fintype Tid] in
/-- A step leaves the mutex alone, takes it when it is free, or gives it up. -/
theorem Event.holder_cases (h : Event self before call choice after moved signal) :
    (after.holder = before.holder ∧ moved.phase.inside = call.phase.inside) ∨
      (before.holder = none ∧ after.holder = some self ∧ moved.phase.inside = true) ∨
      (call.phase.inside = true ∧ after.holder = none ∧ moved.phase.inside = false) := by
  have hkept {phase phase' : Phase} (hholder : after.holder = before.holder)
      (hbefore : call.phase = phase) (hphase : moved.phase = phase')
      (hinside : phase'.inside = phase.inside) :
      after.holder = before.holder ∧ moved.phase.inside = call.phase.inside :=
    ⟨hholder, by rw [hbefore, hphase, hinside]⟩
  cases h
  case stay hafter hphase hsignal => exact .inl ⟨by rw [hafter], by rw [hphase]⟩
  case lock hfree hafter hbefore hphase hsignal =>
    exact .inr (.inl ⟨hfree, by rw [hafter], by rw [hphase]; rfl⟩)
  case unlock owing hafter hbefore hphase hsignal =>
    exact .inr (.inr ⟨by rw [hbefore]; rfl, by rw [hafter], by rw [hphase]; rfl⟩)
  case release state loadedAt hafter hbefore hphase hsignal =>
    exact .inr (.inr ⟨by rw [hbefore]; rfl, by rw [hafter], by rw [hphase]; rfl⟩)
  case announce state loadedAt hcall hafter hphase hsignal =>
    exact .inl (hkept (by rw [hafter]) (congrArg Call.phase hcall) hphase rfl)
  case sleep state loadedAt hcall hchoice hcounter hafter hphase hsignal =>
    exact .inl (hkept (by rw [hafter]) (congrArg Call.phase hcall) hphase rfl)
  case wakeUp hafter hbefore hphase hsignal =>
    rcases hbefore with hbefore | ⟨state, loadedAt, hbefore⟩
    · exact .inl (hkept (by rw [hafter]) hbefore hphase rfl)
    · exact .inl (hkept (by rw [hafter]) hbefore hphase rfl)
  case notify inside owing bumped hafter hbefore hphase hsignal =>
    exact .inl (hkept (by rw [hafter]; rfl) hbefore hphase rfl)
  -- the other steps touch neither the mutex nor who is inside it
  all_goals
    rename_i hafter hbefore hphase hsignal
    exact .inl (hkept (by rw [hafter]) hbefore hphase rfl)

omit [DecidableEq Tid] [Fintype Tid] in
/-- A step leaves `waiting` alone, or counts its thread in or out. -/
theorem Event.waiting_cases (h : Event self before call choice after moved signal) :
    (after.waiting = before.waiting ∧ moved.phase.counted = call.phase.counted) ∨
      ((∃ state loadedAt, call = .wait (.fetchAdd state loadedAt)) ∧
        after.waiting = addU32 before.waiting 1 ∧ call.phase.counted = false ∧
        moved.phase.counted = true) ∨
      (after.waiting = subU32 before.waiting 1 ∧ call.phase.counted = true ∧
        moved.phase.counted = false) := by
  have hkept {phase phase' : Phase} (hwaiting : after.waiting = before.waiting)
      (hbefore : call.phase = phase) (hphase : moved.phase = phase')
      (hcounted : phase'.counted = phase.counted) :
      after.waiting = before.waiting ∧ moved.phase.counted = call.phase.counted :=
    ⟨hwaiting, by rw [hbefore, hphase, hcounted]⟩
  cases h
  case stay hafter hphase hsignal => exact .inl ⟨by rw [hafter], by rw [hphase]⟩
  case announce state loadedAt hcall hafter hphase hsignal =>
    exact .inr (.inl ⟨⟨state, loadedAt, hcall⟩, by rw [hafter], by rw [hcall]; rfl,
      by rw [hphase]; rfl⟩)
  case leave hafter hbefore hphase hsignal =>
    exact .inr (.inr ⟨by rw [hafter], by rw [hbefore]; rfl, by rw [hphase]; rfl⟩)
  case sleep state loadedAt hcall hchoice hcounter hafter hphase hsignal =>
    exact .inl (hkept (by rw [hafter]) (congrArg Call.phase hcall) hphase rfl)
  case wakeUp hafter hbefore hphase hsignal =>
    rcases hbefore with hbefore | ⟨state, loadedAt, hbefore⟩
    · exact .inl (hkept (by rw [hafter]) hbefore hphase rfl)
    · exact .inl (hkept (by rw [hafter]) hbefore hphase rfl)
  case notify inside owing bumped hafter hbefore hphase hsignal =>
    exact .inl (hkept (by rw [hafter]; rfl) hbefore hphase rfl)
  -- the other steps touch neither `waiting` nor who is counted in it
  all_goals
    rename_i hafter hbefore hphase hsignal
    exact .inl (hkept (by rw [hafter]) hbefore hphase rfl)

end Effects

omit [Fintype Tid] in
/-- A wake-up changes the phase of a sleeping thread only, so it keeps what does not tell the two
phases apart. -/
theorem Delivered.phase_eq {β : Type} (g : Phase → β) (hg : g .returning = g .sleeping)
    {signal : Signal Tid Addr} {f f' : Tid → Call}
    (h : (machine Tid).Delivered signal f f') (t : Tid) : g (f' t).phase = g (f t).phase := by
  rcases h.thread t with hsame | ⟨addr, hasleep, hwoken⟩ | hsame
  · rw [hsame]
  · cases addr
    have hsleeping := asleepOn_iff.mp hasleep
    rw [hwoken, hsleeping, ← hg]
    exact congrArg g (phase_wake hsleeping)
  · rw [hsame]
    rfl

/-- The effect of a step on `waiting`. Assumes: few threads are waiting. -/
theorem waiting_step (hbounded : p.shared.waiting < 2 ^ 32)
    (hwaiting : p.shared.waiting = counted p)
    (hfew : FewWaiting p label) (hmove : (system Tid predicate).step p label = some p') :
    p'.shared.waiting < 2 ^ 32 ∧ p'.shared.waiting = counted p' := by
  obtain ⟨moved, signal, hlocal, hdelivered⟩ := Machine.step_cases hmove
  have htotal : counted p' = total (fun call : Call ↦ if call.phase.counted then 1 else 0)
      (update p.threads label.thread moved) :=
    total_congr fun t ↦ Delivered.phase_eq (fun phase ↦ if phase.counted then 1 else 0) rfl
      hdelivered t
  have hupdate := total_update (fun call : Call ↦ if call.phase.counted then 1 else 0)
    p.threads label.thread moved
  rw [← htotal] at hupdate
  simp only [← counted.eq_def] at hupdate
  rcases (step_event hlocal).waiting_cases with
    ⟨hsame, hkept⟩ | ⟨⟨state, loadedAt, hcall⟩, hadd, hout, hin⟩ | ⟨hsub, hin, hout⟩
  · rw [hkept] at hupdate
    omega
  · have hlt := hfew state loadedAt hcall
    rw [addU32_of_lt (by omega)] at hadd
    simp only [hout, hin, if_true, Bool.false_eq_true, if_false] at hupdate
    omega
  · simp only [hout, hin, if_true, Bool.false_eq_true, if_false] at hupdate
    rw [subU32_of_le (by omega) hbounded] at hsub
    omega

/-- The effect of a step on the mutex. -/
theorem holder_step (h : ∀ t, (p.threads t).phase.inside = true ↔ p.shared.holder = some t)
    (hmove : (system Tid predicate).step p label = some p') (t : Tid) :
    (p'.threads t).phase.inside = true ↔ p'.shared.holder = some t := by
  obtain ⟨moved, signal, hlocal, hdelivered⟩ := Machine.step_cases hmove
  rw [Delivered.phase_eq Phase.inside rfl hdelivered t]
  have hself := h label.thread
  rcases (step_event hlocal).holder_cases with
    ⟨hsame, hkept⟩ | ⟨hfree, htaken, hin⟩ | ⟨hin, hfree, hout⟩
  all_goals by_cases ht : t = label.thread
  · subst ht
    rw [update_self, hkept, hsame]
    exact h label.thread
  · rw [update_of_ne ht, hsame]
    exact h t
  · subst ht
    rw [update_self, htaken]
    exact ⟨fun _ ↦ rfl, fun _ ↦ hin⟩
  · rw [update_of_ne ht, htaken, h t, hfree]
    simp [Ne.symm ht]
  · subst ht
    rw [update_self, hfree, hout]
    simp
  · rw [update_of_ne ht, hfree, h t, hself.mp hin]
    simp [Ne.symm ht]

omit [Fintype Tid] in
/-- A property that some thread has and its step keeps is one that some thread still has. -/
theorem exists_phase {f f' : Tid → Call} {t : Tid} {moved : Call} {signal : Signal Tid Addr}
    (g : Phase → Bool) (hg : g .returning = g .sleeping)
    (hdelivered : (machine Tid).Delivered signal (update f t moved) f')
    (hmoved : g (f t).phase = true → g moved.phase = true) (h : ∃ u, g (f u).phase = true) :
    ∃ u, g (f' u).phase = true := by
  obtain ⟨u, hu⟩ := h
  refine ⟨u, ?_⟩
  rw [Delivered.phase_eq g hg hdelivered u]
  by_cases hut : u = t
  · subst hut
    rw [update_self]
    exact hmoved hu
  · rw [update_of_ne hut]
    exact hu

omit [DecidableEq Tid] [Fintype Tid] in
theorem SomePledged.owing (h : SomePledged p) : SomeOwing p := by
  obtain ⟨t, ht⟩ := h
  refine ⟨t, ?_⟩
  cases hphase : (p.threads t).phase with
  | free inside owing bumped =>
    rw [hphase] at ht
    simp only [Phase.pledged, Bool.and_eq_true] at ht
    exact ht.1
  | _ => rw [hphase] at ht; cases ht

/-- Every phase keeps its promise across a step. -/
theorem fits_step (h : Promised p) (hfew : FewNotifications p label)
    (hmove : (system Tid predicate).step p label = some p') (t : Tid) :
    (p'.threads t).phase.Fits p'.shared (SomePledged p') (SomeOwing p') := by
  obtain ⟨moved, signal, hlocal, hdelivered⟩ := Machine.step_cases hmove
  have hevent := step_event hlocal
  have hpledged (hkept : (p.threads label.thread).phase.pledged = true →
    moved.phase.pledged = true) :
      SomePledged p → SomePledged p' := exists_phase Phase.pledged rfl hdelivered hkept
  have howing (hkept : (p.threads label.thread).phase.owing = true → moved.phase.owing = true) :
      SomeOwing p → SomeOwing p' := exists_phase Phase.owing rfl hdelivered hkept
  -- a woken thread is on its way back and promises nothing; any other thread is as the step left it
  have hreduce (hmoved : moved.phase.Fits p'.shared (SomePledged p') (SomeOwing p'))
      (hothers : ∀ u, u ≠ label.thread → p'.threads u = p.threads u →
        (p.threads u).phase.Fits p'.shared (SomePledged p') (SomeOwing p')) :
      (p'.threads t).phase.Fits p'.shared (SomePledged p') (SomeOwing p') := by
    by_cases ht : t = label.thread
    · subst ht
      rcases hdelivered.thread label.thread with hsame | ⟨addr, hasleep, hwoken⟩ | hsame
      · rw [hsame, update_self]
        exact hmoved
      · cases addr
        rw [hwoken, show ((machine Tid).wake _).phase = _ from phase_wake (asleepOn_iff.mp hasleep)]
        trivial
      · rw [hsame, update_self]
        exact hmoved
    · rcases hdelivered.thread t with hsame | ⟨addr, hasleep, hwoken⟩ | hsame
      · rw [update_of_ne ht] at hsame
        rw [hsame]
        exact hothers t ht hsame
      · cases addr
        rw [hwoken, show ((machine Tid).wake _).phase = _ from phase_wake (asleepOn_iff.mp hasleep)]
        trivial
      · rw [update_of_ne ht] at hsame
        rw [hsame]
        exact hothers t ht hsame
  have hquiet (hpredicate : p'.shared.predicate = p.shared.predicate)
      (hnotifications : p'.shared.notifications = p.shared.notifications)
      (hkept : (p.threads label.thread).phase.pledged = true → moved.phase.pledged = true)
      (hkept' : (p.threads label.thread).phase.owing = true → moved.phase.owing = true)
      (u : Tid) : (p.threads u).phase.Fits p'.shared (SomePledged p') (SomeOwing p') :=
    (h.fits u).mono hpredicate hnotifications (hpledged hkept) fun _ ↦ howing hkept'
  have hself := h.fits label.thread
  cases hevent
  case stay hafter hphase hsignal =>
    have hall := hquiet (by rw [hafter]) (by rw [hafter]) (by rw [hphase]; exact id)
      (by rw [hphase]; exact id)
    exact hreduce (hphase ▸ hall label.thread) fun u _ _ ↦ hall u
  case notify inside owing bumped hafter hbefore hphase hsignal =>
    refine hreduce (by rw [hphase]; trivial) fun u _ _ ↦ ?_
    rw [hafter]
    exact (h.fits u).notify (howing (by rw [hbefore, hphase]; exact id))
  case write value owing hafter hbefore hphase hsignal =>
    refine hreduce (by rw [hphase]; trivial) fun u hu _ ↦ ?_
    have hholder := (h.holder label.thread).mp (by rw [hbefore]; rfl)
    have houtside : (p.threads u).phase.inside = false := Bool.eq_false_iff.mpr fun hinside ↦
      hu (Option.some.inj (((h.holder u).mp hinside).symm.trans hholder))
    have hpledge (htrue : value = true) : SomePledged p' := by
      refine ⟨label.thread, ?_⟩
      rw [Delivered.phase_eq Phase.pledged rfl hdelivered, update_self, hphase, htrue, Bool.or_true]
      rfl
    rw [hafter]
    exact (h.fits u).write houtside hpledge fun htrue ↦ (hpledge htrue).owing
  case skip inside owing hnone hafter hbefore hphase hsignal =>
    refine hreduce (by rw [hphase]; trivial) fun u _ _ ↦ ?_
    have hawake : (p.threads u).phase ≠ .sleeping := by
      intro hsleeping
      have hle : (if (p.threads u).phase.counted then 1 else 0) ≤ counted p :=
        le_total (fun call : Call ↦ if call.phase.counted then 1 else 0) p.threads u
      rw [hsleeping, ← h.waiting, hnone] at hle
      exact absurd hle (by decide)
    refine (h.fits u).mono (by rw [hafter]) (by rw [hafter]) (hpledged ?_)
      fun hsleeping ↦ absurd hsleeping hawake
    rw [hbefore]
    simp [Phase.pledged]
  case wakeAll inside owing hafter hbefore hphase hsignal =>
    refine hreduce (by rw [hphase]; trivial) fun u hu hsame ↦ ?_
    have hawake : (p.threads u).phase ≠ .sleeping := by
      intro hsleeping
      subst hsignal
      have hwoken := congrFun hdelivered.wakeAll_eq u
      have hasleep : (machine Tid).asleepOn (p.threads u) = some .counter :=
        asleepOn_iff.mpr hsleeping
      simp only [hsame, update_of_ne hu, if_pos hasleep] at hwoken
      have hreturning := phase_wake hsleeping
      rw [show wake (p.threads u) = p.threads u from hwoken.symm, hsleeping] at hreturning
      cases hreturning
    refine (h.fits u).mono (by rw [hafter]) (by rw [hafter]) (hpledged ?_)
      fun hsleeping ↦ absurd hsleeping hawake
    rw [hbefore]
    simp [Phase.pledged]
  case check hpredicate hafter hbefore hphase hsignal =>
    refine hreduce ?_ fun u _ _ ↦ hquiet ?_ ?_ ?_ ?_ u
    · rw [hphase, hafter]
      exact hpredicate
    all_goals simp [hafter, hbefore, Phase.pledged, Phase.owing]
  case load hafter hbefore hphase hsignal =>
    refine hreduce ?_ fun u _ _ ↦ hquiet ?_ ?_ ?_ ?_ u
    · rw [hphase, hafter]
      rw [hbefore] at hself
      exact ⟨hself, h.counter, le_rfl⟩
    all_goals simp [hafter, hbefore, Phase.pledged, Phase.owing]
  case announce state loadedAt hcall hafter hphase hsignal =>
    refine hreduce ?_ fun u _ _ ↦ hquiet ?_ ?_ ?_ ?_ u
    · rw [hphase, hafter]
      rw [hcall] at hself
      exact hself
    all_goals simp [hafter, hcall, Call.phase, Phase.pledged, Phase.owing]
  case release state loadedAt hafter hbefore hphase hsignal =>
    refine hreduce ?_ fun u _ _ ↦ hquiet ?_ ?_ ?_ ?_ u
    · rw [hphase, hafter]
      rw [hbefore] at hself
      exact ⟨hself.2.1, hself.2.2, fun _ htrue ↦ absurd (hself.1.symm.trans htrue) Bool.noConfusion⟩
    all_goals simp [hafter, hbefore, Phase.pledged, Phase.owing]
  case sleep state loadedAt hcall hchoice hcounter hafter hphase hsignal =>
    have hkept : SomePledged p → SomeOwing p' := fun hsome ↦
      howing (by rw [hcall]; exact nofun) hsome.owing
    refine hreduce ?_ fun u _ _ ↦ hquiet ?_ ?_ ?_ ?_ u
    · rw [hphase, hafter]
      rw [hcall] at hself
      obtain ⟨hstate, hle, hpromise⟩ := hself
      -- with fewer than `2^32` notifications in between, an equal counter means an unchanged one
      have hcurrent : loadedAt = p.shared.notifications := by
        have hlt := hfew state loadedAt hcall
        have hmod := h.counter
        omega
      exact fun htrue ↦ hkept (hpromise hcurrent htrue)
    all_goals simp [hafter, hcall, Call.phase, Phase.pledged, Phase.owing]
  case wakeUp hafter hbefore hphase hsignal =>
    refine hreduce (by rw [hphase]; trivial) fun u _ _ ↦ hquiet ?_ ?_ ?_ ?_ u
    all_goals
      rcases hbefore with hbefore | ⟨state, loadedAt, hbefore⟩
      · simp [hafter, hbefore, Phase.pledged, Phase.owing]
      · simp [hafter, hbefore, Phase.pledged, Phase.owing]
  -- the other steps leave their thread outside `wait`, and change nothing that the others promise
  all_goals
    rename_i hafter hbefore hphase hsignal
    refine hreduce (by rw [hphase]; trivial) fun u _ _ ↦ hquiet ?_ ?_ ?_ ?_ u
    all_goals simp [hafter, hbefore, hphase, Phase.pledged, Phase.owing]

/-- One step keeps the invariant. Assumes: the two bounds on the step. -/
theorem promised_step (h : Promised p) (hfew : FewNotifications p label)
    (hwaiters : FewWaiting p label) (hmove : (system Tid predicate).step p label = some p') :
    Promised p' := by
  obtain ⟨hbounded, hwaiting⟩ := waiting_step h.bounded h.waiting hwaiters hmove
  obtain ⟨moved, signal, hlocal, -⟩ := Machine.step_cases hmove
  exact
    { counter := (step_event hlocal).counter_eq h.counter
      waiting := hwaiting
      bounded := hbounded
      holder := holder_step h.holder hmove
      fits := fits_step h hfew hmove }

/-- The bounds under which the two counters can be trusted. -/
def Few (p : Pool Tid (Shared Tid) Call) (label : Label Tid Choice) : Prop :=
  FewNotifications p label ∧ FewWaiting p label

/-- Fewer than `2^32` threads keep the bound on `waiting`. -/
theorem fewWaiting_of_card (hthreads : Fintype.card Tid < 2 ^ 32) : FewWaiting p label := by
  intro state loadedAt hcall
  let weight (call : Call) : ℕ := if call.phase.counted then 1 else 0
  have hle : total weight (update p.threads label.thread (.wait .fetchSub)) ≤ Fintype.card Tid :=
    total_le_card (fun call ↦ by simp only [weight]; split_ifs <;> omega) _
  -- the thread itself is not counted, so counting it as well still counts at most all threads
  have hupdate := total_update weight p.threads label.thread (.wait .fetchSub)
  have hself : weight (p.threads label.thread) = 0 := by rw [hcall]; rfl
  have hreturned : weight (.wait .fetchSub) = 1 := rfl
  have hcounted : counted p = total weight p.threads := rfl
  omega

omit [DecidableEq Tid] in
/-- The invariant holds before any call. -/
theorem promised_new : Promised (new Tid predicate) where
  counter := rfl
  waiting := ((total_eq_zero_iff _ _).mpr fun _ ↦ rfl).symm
  bounded := Nat.two_pow_pos 32
  holder := fun _ ↦ by simp [new, Call.phase, Phase.inside]
  fits := fun _ ↦ trivial

/-- The invariant holds in every state of a run within the bounds. -/
theorem promised (h : (system Tid predicate).ReachableWhen Few p) : Promised p := by
  refine h.invariant promised_new ?_
  intro p label p' _ hpromised hfew hmove
  exact promised_step hpromised hfew.1 hfew.2 hmove

/-- While the predicate is true and a thread is asleep, some thread that has made the predicate true
has yet to complete its `notify_all`, in every state of a run within the bounds. -/
theorem notification_pending (h : (system Tid predicate).ReachableWhen Few p)
    (htrue : p.shared.predicate = true) (hasleep : ∃ t, p.threads t = .wait .asleep) :
    ∃ t, (p.threads t).phase.owing = true := by
  obtain ⟨t, ht⟩ := hasleep
  have hfits := (promised h).fits t
  rw [ht] at hfits
  exact hfits htrue

/-- `notification_pending` on a run in which thread 0 is asleep and thread 1 has made the predicate
true and incremented `counter`. -/
theorem notification_pending_two_threads :
    ∃ p : Pool (Fin 2) (Shared (Fin 2)) Call, p.threads 0 = .wait .asleep ∧
      p.shared.predicate = true ∧ ∃ t, (p.threads t).phase.owing = true := by
  obtain ⟨p, hrun, hasleep, htrue⟩ := System.exists_reachableWhen_of_exec
    (M := system (Fin 2) false)
    (fun p _ ↦ p.shared.notifications < 2 ^ 32)
    (P := fun p ↦ p.threads 0 = .wait .asleep ∧ p.shared.predicate = true)
    ([⟨0, .consume, none⟩] ++ List.replicate 6 ⟨0, .go, none⟩ ++
      [⟨1, .lock, none⟩, ⟨1, .go, none⟩, ⟨1, .write true, none⟩, ⟨1, .unlock, none⟩,
        ⟨1, .notifyAll, none⟩, ⟨1, .go, none⟩]) (by decide)
  have hfew : (system (Fin 2) false).ReachableWhen Few p := hrun.mono fun p label hbound ↦
    ⟨fun _ _ _ ↦ Nat.lt_add_left _ hbound, fewWaiting_of_card (by decide)⟩
  exact ⟨p, hasleep, htrue, notification_pending hfew htrue ⟨0, hasleep⟩⟩

end Runs

/-! ### More waiting threads than `waiting` can count -/

section Crowd

variable {Tid : Type} [DecidableEq Tid] [Fintype Tid] {predicate : Bool}

/-- One more step of the same thread. -/
theorem reachable_step {shared after : Shared Tid} {f : Tid → Call} {t : Tid} {call moved : Call}
    (choice : Choice)
    (h : (system Tid predicate).ReachableWhen FewNotifications ⟨shared, update f t call⟩)
    (hfew : ∀ state loadedAt, call = .wait (.wait state loadedAt) →
      shared.notifications < loadedAt + 2 ^ 32)
    (hstep : step t shared call choice = some (after, moved, .silent)) :
    (system Tid predicate).ReachableWhen FewNotifications ⟨after, update f t moved⟩ := by
  refine h.step (i := ⟨t, choice, none⟩) ?_ ?_
  · intro state loadedAt hcall
    simp only [update_self] at hcall
    exact hfew state loadedAt hcall
  · have hmachine : (machine Tid).step t shared (update f t call t) choice =
        some (after, moved, .silent) := by
      rw [update_self]
      exact hstep
    simp only [system, Machine.system, hmachine, Option.bind_some, Machine.deliver, Option.map_some,
      update_idem]

/-- A thread runs into `wait` and falls asleep. -/
theorem reachable_asleep {counter waiting notifications : ℕ} {f : Tid → Call} {t : Tid}
    (h : (system Tid predicate).ReachableWhen FewNotifications
      ⟨⟨counter, waiting, none, false, notifications⟩, update f t (.between false false)⟩) :
    (system Tid predicate).ReachableWhen FewNotifications
      ⟨⟨counter, addU32 waiting 1, none, false, notifications⟩, update f t (.wait .asleep)⟩ := by
  have hlock := reachable_step .consume h nofun rfl
  have hcheck := reachable_step .go hlock nofun rfl
  have hload := reachable_step .go hcheck nofun rfl
  have hannounce := reachable_step .go hload nofun rfl
  have hunlock := reachable_step .go hannounce nofun rfl
  have hwait := reachable_step .go hunlock nofun rfl
  refine reachable_step .go hwait ?_ (by simp [step, waitStep, quiet])
  rintro state loadedAt ⟨⟩
  exact Nat.lt_add_of_pos_right (Nat.two_pow_pos 32)

/-- A thread makes the predicate true and calls `notify_all` while `waiting` reads zero. -/
theorem reachable_notified {counter notifications : ℕ} {f : Tid → Call} {t : Tid}
    (h : (system Tid predicate).ReachableWhen FewNotifications
      ⟨⟨counter, 0, none, false, notifications⟩, update f t (.between false false)⟩) :
    (system Tid predicate).ReachableWhen FewNotifications
      ⟨⟨addU32 counter 1, 0, none, true, notifications + 1⟩,
        update f t (.between false false)⟩ := by
  have hlock := reachable_step .lock h nofun rfl
  have hinside := reachable_step .go hlock nofun rfl
  have hwritten := reachable_step (.write true) hinside nofun rfl
  have hnotify := reachable_step .notifyAll hwritten nofun rfl
  have hload := reachable_step .go hnotify nofun rfl
  have hdone := reachable_step .go hload nofun rfl
  exact reachable_step .unlock hdone nofun rfl

/-- `n` threads and one more, the first `k` of the `n` asleep. -/
def crowd (n k : ℕ) : Option (Fin n) → Call
  | none => .between false false
  | some i => if i.val < k then .wait .asleep else .between false false

theorem crowd_some {n k : ℕ} (i : Fin n) :
    crowd n k (some i) = if i.val < k then .wait .asleep else .between false false := rfl

theorem crowd_succ {n k : ℕ} (hk : k < n) :
    update (crowd n k) (some ⟨k, hk⟩) (.wait .asleep) = crowd n (k + 1) := by
  funext t
  cases t with
  | none => rfl
  | some i =>
    by_cases hi : i = ⟨k, hk⟩
    · subst hi
      simp [crowd]
    · have hne : i.val ≠ k := fun heq ↦ hi (Fin.ext heq)
      rw [update_of_ne (fun heq ↦ hi (Option.some.inj heq))]
      simp only [crowd]
      congr 1
      exact propext ⟨fun hlt ↦ Nat.lt_succ_of_lt hlt, fun hlt ↦ by omega⟩

/-- One thread after the other falls asleep, and `waiting` counts them up to a multiple of
`2^32`. -/
theorem reachable_crowd (n : ℕ) : ∀ k, k ≤ n →
    (system (Option (Fin n)) false).ReachableWhen FewNotifications
      ⟨⟨0, k % 2 ^ 32, none, false, 0⟩, crowd n k⟩ := by
  intro k
  induction k with
  | zero =>
    intro _
    have hnobody : crowd n 0 = fun _ ↦ .between false false := by
      funext t
      cases t <;> rfl
    rw [hnobody]
    exact .init
  | succ k ih =>
    intro hk
    have hbefore := ih (Nat.le_of_succ_le hk)
    have hidle : crowd n k = update (crowd n k) (some ⟨k, hk⟩) (.between false false) := by
      refine (update_eq_self_iff.mpr ?_).symm
      simp [crowd]
    rw [hidle] at hbefore
    have hafter := reachable_asleep hbefore
    rw [crowd_succ] at hafter
    have hcount : addU32 (k % 2 ^ 32) 1 = (k + 1) % 2 ^ 32 := by
      unfold addU32
      omega
    rwa [hcount] at hafter

/-- With `2^32` threads asleep `waiting` reads zero, and `notify_all` wakes nobody. -/
theorem notification_lost_in_crowd :
    ∃ p : Pool (Option (Fin (2 ^ 32))) (Shared (Option (Fin (2 ^ 32)))) Call,
      (system (Option (Fin (2 ^ 32))) false).ReachableWhen FewNotifications p ∧
        p.shared.predicate = true ∧ (∃ t, p.threads t = .wait .asleep) ∧
          ∀ t, (p.threads t).phase.owing = false := by
  have hcrowd := reachable_crowd (2 ^ 32) (2 ^ 32) le_rfl
  rw [Nat.mod_self, ← update_eq_self none (crowd (2 ^ 32) (2 ^ 32))] at hcrowd
  have hnotified := reachable_notified hcrowd
  refine ⟨_, hnotified, rfl, ⟨some 0, ?_⟩, fun t ↦ ?_⟩
  · show update (crowd (2 ^ 32) (2 ^ 32)) none (.between false false) (some 0) = .wait .asleep
    rw [update_of_ne (Option.some_ne_none 0), crowd_some, if_pos (Fin.isLt 0)]
  · cases t with
    | none => rfl
    | some i =>
      show (update (crowd (2 ^ 32) (2 ^ 32)) none (.between false false) (some i)).phase.owing =
        false
      rw [update_of_ne (Option.some_ne_none i), crowd_some]
      split_ifs <;> rfl

end Crowd

end SyncPrimitives.CondVar
