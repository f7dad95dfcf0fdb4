import SyncPrimitives.Concurrency.Moments
import SyncPrimitives.RwLock.ReaderLimit
import SyncPrimitives.RwLock.Records

/-!
# Refusals of the read-write lock

`try_read` should answer `WouldBlock` only if a write guard was outstanding or the waiting-writer
bit was set at some moment of the call, `try_write` only if some guard was. `watchedCalls` records
for every thread what has been so since its current call began. `false_would_block` is a run in
which a `try_read` loads the word, another reader acquires, and the compare-and-exchange fails on
the even word of that reader: it is refused although no thread has ever called `write` or
`try_write`.

A `try_write` whose compare-and-exchange fails has loaded a free word that has changed since, and
such a change acquires a guard or releases one (`changed_of_effect`), so its refusals are truthful
as long as the word counts the readers. `try_refusals_truthful` holds in every run in which it does
(`ReloadsBelowLimit`) and in which no compare-and-exchange of `try_read` is beaten by a compatible
reader.
-/

set_option autoImplicit false
set_option relaxedAutoImplicit false

namespace SyncPrimitives.RwLock

open Concurrency Function

/-- The guard a `try` call asks for. -/
def Call.trying : Call → Option Guard
  | .tryRead _ => some .read
  | .tryWrite _ => some .write
  | _ => none

/-- Whether a thread is inside a call. -/
def Thread.inCall (th : Thread) : Bool := th.call ≠ .idle

/-- The call that has just returned has answered `WouldBlock`. -/
def Thread.WouldBlock (th : Thread) : Prop :=
  th.call = .idle ∧ th.result = some (.error .wouldBlock)

instance (th : Thread) : Decidable th.WouldBlock := inferInstanceAs (Decidable (_ ∧ _))

/-- Whether the compare-and-exchange of `try_read` is about to fail on an even word. -/
def Call.beaten (s : Shared) : Call → Bool
  | .tryRead (.compareExchange state _) => s.state ≠ state && s.state % 2 = 0
  | _ => false

/-- The condition on a step: no reload passes the limit, and no `try_read` is beaten by a change of
the word that leaves it even. -/
structure UnbeatenCondition {Tid : Type} (p : Pool Tid Shared Thread) (label : Label Tid Choice) :
    Prop where
  reloads : ReloadsBelowLimit p label
  unbeaten : (p.threads label.thread).call.beaten p.shared = false

/-! ### The steps of the two calls -/

section Local

variable {th : Thread} {state : ℕ} {pc : TryWritePc}

theorem acquiredCheck_ne_tryWrite {next : Call} (hnext : next ≠ .tryWrite pc) :
    (acquiredCheck th next).call ≠ .tryWrite pc := by
  unfold acquiredCheck
  split_ifs
  · exact Call.noConfusion
  · exact hnext

theorem readWhile_ne_tryWrite : (readWhile th state).call ≠ .tryWrite pc := by
  unfold readWhile
  split_ifs <;> exact Call.noConfusion

theorem readLoop_ne_tryWrite : (readLoop th state).call ≠ .tryWrite pc := by
  unfold readLoop
  split_ifs
  · exact Call.noConfusion
  · exact Call.noConfusion
  · exact readWhile_ne_tryWrite

theorem writeLoop_ne_tryWrite : (writeLoop th state).call ≠ .tryWrite pc := by
  unfold writeLoop
  split_ifs <;> exact Call.noConfusion

theorem tryWrite_of_wake (h : (wake th).call = .tryWrite pc) : th.call = .tryWrite pc := by
  unfold wake at h
  split at h
  case h_2 => exact absurd h readLoop_ne_tryWrite
  case h_4 => exact h
  all_goals cases h

end Local

section Steps

variable {Tid : Type} {before after : Shared} {th moved : Thread} {signal : Signal Tid Addr}
  {choice : Choice}

/-- A step of a `try` call that takes no guard leaves the lock as it is. -/
theorem refusal_of_quiet {guard : Guard} {next : Thread} {reason : Prop}
    (hreason : next.WouldBlock → reason) (h : quiet before next = some (after, moved, signal)) :
    signal = .silent ∧ (moved.call ≠ .acquired guard → after = before) ∧
      (moved.WouldBlock → reason) := by
  obtain ⟨rfl, rfl, rfl⟩ := quiet_eq_some.mp h
  exact ⟨rfl, fun _ ↦ rfl, hreason⟩

/-- Its compare-and-exchange takes a guard, or answers `WouldBlock` because the word has changed. -/
theorem refusal_of_exchange {guard : Guard} {state : ℕ} {shared : Shared} {reason : Prop}
    (hreason : before.state ≠ state → reason)
    (h : (if before.state = state then quiet shared (th.acquire guard)
      else quiet before (th.ret (.error .wouldBlock))) = some (after, moved, signal)) :
    signal = .silent ∧ (moved.call ≠ .acquired guard → after = before) ∧
      (moved.WouldBlock → reason) := by
  split_ifs at h with hcas
  · obtain ⟨rfl, rfl, rfl⟩ := quiet_eq_some.mp h
    cases guard with
    | read => exact ⟨rfl, fun hnot ↦ absurd rfl hnot, fun hrefused ↦ by cases hrefused.1⟩
    | write => exact ⟨rfl, fun hnot ↦ absurd rfl hnot, fun hrefused ↦ by cases hrefused.1⟩
  · exact refusal_of_quiet (fun _ ↦ hreason hcas) h

/-- The check at the start of a call refuses a holder. -/
theorem acquired_of_wouldBlock {next : Call} (hnext : next ≠ .idle)
    (h : (acquiredCheck th next).WouldBlock) : th.acquired = true := by
  by_contra hacquired
  rw [acquiredCheck, if_neg hacquired] at h
  exact hnext h.1

/-- A step of `try_read` that does not acquire leaves the lock as it is, and it answers `WouldBlock`
to a holder, on an odd word, or when it is beaten. -/
theorem tryReadStep_refusal {pc : TryReadPc}
    (h : tryReadStep before th pc choice = some (after, moved, signal)) :
    signal = .silent ∧ (moved.call ≠ .acquired .read → after = before) ∧
      (moved.WouldBlock → pc = .acquiredCheck ∧ th.acquired = true ∨ before.state % 2 = 1 ∨
        (Call.tryRead pc).beaten before = true) := by
  cases pc <;> cases choice <;> simp only [tryReadStep, reduceCtorEq] at h
  case acquiredCheck.go =>
    exact refusal_of_quiet
      (fun hrefused ↦ .inl ⟨rfl, acquired_of_wouldBlock (by simp) hrefused⟩) h
  case load.go =>
    split_ifs at h with hlimit heven
    · exact refusal_of_quiet (fun hrefused ↦ by cases hrefused.2) h
    · exact refusal_of_quiet (fun hrefused ↦ by cases hrefused.1) h
    · exact refusal_of_quiet (fun _ ↦ .inr (.inl (Nat.mod_two_ne_zero.mp heven))) h
  case compareExchange.go state even =>
    refine refusal_of_exchange (fun hcas ↦ .inr ?_) h
    by_cases hodd : before.state % 2 = 1
    · exact .inl hodd
    · exact .inr (by simp [Call.beaten, hcas, Nat.mod_two_ne_one.mp hodd])

/-- A step of `try_write` that does not acquire leaves the lock as it is, and it answers
`WouldBlock` to a holder, on a word that is not free, or because a free word has changed since it
was loaded. -/
theorem tryWriteStep_refusal {pc : TryWritePc}
    (h : tryWriteStep before th pc choice = some (after, moved, signal)) :
    signal = .silent ∧ (moved.call ≠ .acquired .write → after = before) ∧
      (moved.WouldBlock → pc = .acquiredCheck ∧ th.acquired = true ∨ 1 < before.state ∨
        ∃ state free, pc = .compareExchange state free ∧ before.state ≠ state) := by
  cases pc <;> cases choice <;> simp only [tryWriteStep, reduceCtorEq] at h
  case acquiredCheck.go =>
    exact refusal_of_quiet
      (fun hrefused ↦ .inl ⟨rfl, acquired_of_wouldBlock (by simp) hrefused⟩) h
  case load.go =>
    split_ifs at h with hfree
    · exact refusal_of_quiet (fun hrefused ↦ by cases hrefused.1) h
    · exact refusal_of_quiet (fun _ ↦ .inr (.inl (not_le.mp hfree))) h
  case compareExchange.go state free =>
    exact refusal_of_exchange (fun hcas ↦ .inr (.inr ⟨state, free, rfl, hcas⟩)) h

/-- The snapshot of `try_write` is the word its last step has loaded. -/
theorem loaded_of_step {state : ℕ} {free : state ≤ 1}
    (hcall : moved.call = .tryWrite (.compareExchange state free))
    (h : step before th choice = some (after, moved, signal)) : after.state = state := by
  unfold step at h
  split at h
  case h_1 =>
    cases choice with
    | call method =>
      cases method
      all_goals
        obtain ⟨rfl, rfl, -⟩ := quiet_eq_some.mp h
        cases hcall
    | drop guard panicking =>
      cases guard
      all_goals
        simp only [idleStep] at h
        split_ifs at h
        obtain ⟨rfl, rfl, -⟩ := quiet_eq_some.mp h
        cases hcall
    | clearPoison =>
      rename_i hidle
      obtain ⟨rfl, rfl, -⟩ := quiet_eq_some.mp h
      cases hidle.symm.trans hcall
    | go => cases h
    | spurious => cases h
  case h_2 pc _ =>
    cases pc <;> cases choice <;> simp only [readStep, reduceCtorEq] at h
    all_goals try split_ifs at h
    all_goals obtain ⟨rfl, rfl, -⟩ := quiet_eq_some.mp h
    case acquiredCheck.go => exact absurd hcall (acquiredCheck_ne_tryWrite (by simp))
    all_goals
      first
      | exact absurd hcall readLoop_ne_tryWrite
      | exact absurd hcall readWhile_ne_tryWrite
      | cases hcall
  case h_3 pc _ =>
    cases pc <;> cases choice <;> simp only [writeStep, reduceCtorEq] at h
    all_goals try split_ifs at h
    all_goals obtain ⟨rfl, rfl, -⟩ := quiet_eq_some.mp h
    case acquiredCheck.go => exact absurd hcall (acquiredCheck_ne_tryWrite (by simp))
    all_goals
      first
      | exact absurd hcall writeLoop_ne_tryWrite
      | cases hcall
  case h_4 pc _ =>
    cases pc <;> cases choice <;> simp only [tryReadStep, reduceCtorEq] at h
    all_goals try split_ifs at h
    all_goals obtain ⟨rfl, rfl, -⟩ := quiet_eq_some.mp h
    case acquiredCheck.go => exact absurd hcall (acquiredCheck_ne_tryWrite (by simp))
    all_goals cases hcall
  case h_5 pc _ =>
    cases pc <;> cases choice <;> simp only [tryWriteStep, reduceCtorEq] at h
    all_goals try split_ifs at h
    all_goals obtain ⟨rfl, rfl, -⟩ := quiet_eq_some.mp h
    case acquiredCheck.go => exact absurd hcall (acquiredCheck_ne_tryWrite (by simp))
    all_goals cases hcall
    rfl
  case h_6 =>
    split_ifs at h
    obtain ⟨rfl, rfl, -⟩ := quiet_eq_some.mp h
    cases hcall
  case h_7 pc _ =>
    cases pc <;> cases choice <;> simp only [dropReadStep, quiet, Option.some.injEq, Prod.mk.injEq,
      reduceCtorEq] at h
    all_goals obtain ⟨rfl, rfl, -⟩ := h
    all_goals try split_ifs at hcall
    all_goals cases hcall
  case h_8 pc _ =>
    cases pc <;> cases choice <;> simp only [dropWriteStep, quiet, Option.some.injEq, Prod.mk.injEq,
      reduceCtorEq] at h
    all_goals obtain ⟨rfl, rfl, -⟩ := h
    all_goals try split_ifs at hcall
    all_goals cases hcall

/-- A change of a free word acquires a guard or releases one. -/
theorem changed_of_effect (hfree : before.state ≤ 1) (hchanged : after.state ≠ before.state)
    (heffect : Effect before th after moved) :
    ∃ guard, 0 < th.outstanding guard ∨ 0 < moved.outstanding guard := by
  cases heffect with
  | unchanged hstate => exact absurd hstate hchanged
  | acquireRead heven hstate hreads => exact ⟨.read, .inr (by omega)⟩
  | acquireWrite hfree hstate hreads hwrites => exact ⟨.write, .inr (by omega)⟩
  | setWaiting hshared => omega
  | releaseRead hstate hreads => exact ⟨.read, .inl (by omega)⟩
  | releaseWrite hstate hreads hwrites => exact ⟨.write, .inl (by omega)⟩

end Steps

section Watched

variable {Tid : Type} [DecidableEq Tid] [Fintype Tid]

instance (p : Pool Tid Shared Thread) (label : Label Tid Choice) :
    Decidable (UnbeatenCondition p label) :=
  decidable_of_iff
    (ReloadsBelowLimit p label ∧ (p.threads label.thread).call.beaten p.shared = false)
    ⟨fun ⟨h₁, h₂⟩ ↦ ⟨h₁, h₂⟩, fun h ↦ ⟨h.reloads, h.unbeaten⟩⟩

/-- Whether a guard of a kind cannot be had at a moment: a read guard if a write guard is
outstanding or the waiting-writer bit is set, a write guard if any guard is outstanding. -/
def Guard.unavailable (p : Pool Tid Shared Thread) : Guard → Bool
  | .read => 0 < writers p ∨ p.shared.state % 2 = 1
  | .write => 0 < writers p ∨ 0 < readers p

/-- The threads of a lock, with what could not be had during the current calls. -/
def watchedCalls (Tid : Type) [DecidableEq Tid] [Fintype Tid] :
    System (Pool Tid Shared Thread × (Guard → Tid → Bool)) (Label Tid Choice) :=
  (system Tid).watching Thread.inCall fun guard p ↦ guard.unavailable p

/-- Two readers on a lock that nobody writes: the first is refused because the second acquires
between its load and its compare-and-exchange. -/
theorem false_would_block : ∃ x : Pool (Fin 2) Shared Thread × (Guard → Fin 2 → Bool),
    (watchedCalls (Fin 2)).Reachable x ∧ (x.1.threads 0).call = .tryRead (.compareExchange 0 rfl) ∧
      x.2 .read 0 = false ∧
      ((system (Fin 2)).step x.1 ⟨0, .go, none⟩).any (fun p' ↦
        decide (p'.threads 0).WouldBlock) = true :=
  System.exists_reachableWhen_of_exec (M := watchedCalls (Fin 2)) (fun _ _ ↦ True)
    (P := fun x ↦ (x.1.threads 0).call = .tryRead (.compareExchange 0 rfl) ∧
      x.2 .read 0 = false ∧
      ((system (Fin 2)).step x.1 ⟨0, .go, none⟩).any (fun p' ↦
        decide (p'.threads 0).WouldBlock) = true)
    [⟨0, .call .tryRead, none⟩, ⟨0, .go, none⟩, ⟨0, .go, none⟩,
      ⟨1, .call .read, none⟩, ⟨1, .go, none⟩, ⟨1, .go, none⟩, ⟨1, .go, none⟩] (by decide)

variable {x : Pool Tid Shared Thread × (Guard → Tid → Bool)} {label : Label Tid Choice}
  {p : Pool Tid Shared Thread}

omit [DecidableEq Tid] in
/-- An outstanding guard of any kind makes a write guard unavailable. -/
theorem unavailable_of_outstanding {guard : Guard}
    (h : 0 < total (Thread.outstanding guard) p.threads) : Guard.unavailable p .write = true := by
  refine decide_eq_true ?_
  cases guard with
  | read => exact .inr h
  | write => exact .inl h

/-- The free word that `try_write` has loaded is the word, or some guard has been outstanding
since. -/
def Loaded (x : Pool Tid Shared Thread × (Guard → Tid → Bool)) : Prop :=
  ∀ t state free, (x.1.threads t).call = .tryWrite (.compareExchange state free) →
    x.1.shared.state = state ∨ x.2 .write t = true

/-- Every state of a watched run has loaded what it has loaded. -/
theorem loaded {ok : Pool Tid Shared Thread × (Guard → Tid → Bool) → Label Tid Choice → Prop}
    (h : (watchedCalls Tid).ReachableWhen ok x) : Loaded x := by
  have hnew : Loaded (watchedCalls Tid).init := fun t state free hcall ↦ by
    cases (show Call.idle = .tryWrite (.compareExchange state free) from hcall)
  refine h.invariant (P := Loaded) hnew ?_
  intro x label x' hrun hloaded hmeets hmove t state free hcall
  obtain ⟨hstep, hseen⟩ := System.watching_step hmove
  obtain ⟨moved, signal, hlocal, hdelivered⟩ := Machine.step_cases hstep
  have hat : (update x.1.threads label.thread moved t).call =
      .tryWrite (.compareExchange state free) := by
    rcases hdelivered.thread t with heq | ⟨_, _, heq⟩ | heq
    · rw [← heq]
      exact hcall
    · rw [heq] at hcall
      exact tryWrite_of_wake hcall
    · rw [heq] at hcall
      exact hcall
  by_cases hself : t = label.thread
  · rw [hself, update_self] at hat
    exact .inl (loaded_of_step hat hlocal)
  · rw [update_of_ne hself] at hat
    have hinCall : (x.1.threads t).inCall = true := by
      rw [Thread.inCall, hat]
      rfl
    by_cases hkept : x'.1.shared.state = x.1.shared.state
    · rw [hkept]
      exact (hloaded t state free hat).imp_right (System.seen_of_seen hmove hinCall)
    · -- the word has changed: a guard is outstanding before or after the step
      refine .inr ((hloaded t state free hat).elim (fun hword ↦ ?_)
        (System.seen_of_seen hmove hinCall))
      obtain ⟨guard, hbefore | hafter⟩ :=
        changed_of_effect (hword ▸ free) hkept (step_effect hlocal)
      · have hnow := unavailable_of_outstanding (hbefore.trans_le (le_total _ _ label.thread))
        exact System.seen_of_seen hmove hinCall (hrun.seen_of_now hnow)
      · have htotal := outstanding_step guard hdelivered
        have hle : (x.1.threads label.thread).outstanding guard ≤
            total (Thread.outstanding guard) x.1.threads := le_total _ _ _
        have hpos : 0 < total (Thread.outstanding guard) x'.1.threads := by omega
        rw [hseen, unavailable_of_outstanding hpos, Bool.or_true]

/-- A word above one counts a guard. -/
theorem held_of_counts {state reads writes : ℕ} (hcounts : Counts state reads writes)
    (htaken : 1 < state) : 0 < writes ∨ 0 < reads := by
  unfold Counts at hcounts
  omega

/-- In every run under the condition the refusals of the two `try` calls are truthful: a thread
without a guard is answered `WouldBlock` only if what it asked for was not to be had at some moment
of the call, and a step of the call that does not acquire leaves the lock as it is. -/
theorem try_refusals_truthful {guard : Guard} {p' : Pool Tid Shared Thread}
    (h : (watchedCalls Tid).ReachableWhen (fun x label ↦ UnbeatenCondition x.1 label) x)
    (hmeets : UnbeatenCondition x.1 label)
    (htrying : (x.1.threads label.thread).call.trying = some guard)
    (hnone : (x.1.threads label.thread).guards = 0)
    (hmove : (system Tid).step x.1 label = some p') :
    ((p'.threads label.thread).WouldBlock → x.2 guard label.thread = true) ∧
      ((p'.threads label.thread).call ≠ .acquired guard → p'.shared = x.1.shared) := by
  have hrun : (system Tid).ReachableWhen UnbeatenCondition x.1 := h.of_watching
  have hlimited : Limited x.1 := limited (fun _ _ hmeets ↦ hmeets.reloads) hrun
  have hloaded : Loaded x := loaded h
  have hunbeaten := hmeets.unbeaten
  have hout (hacquiring : (x.1.threads label.thread).call.acquiring = true) :
      (x.1.threads label.thread).acquired = false :=
    not_acquired_of_without (recorded hrun label.thread) hacquiring hnone
  obtain ⟨moved, signal, hlocal, hdelivered⟩ := Machine.step_cases hmove
  unfold Call.trying at htrying
  split at htrying
  case h_1 pc hcall =>
    obtain rfl := Option.some.inj htrying
    have hstep : tryReadStep x.1.shared (x.1.threads label.thread) pc label.choice =
        some (p'.shared, moved, signal) := by
      simpa only [machine, step, hcall] using hlocal
    obtain ⟨rfl, hkept, hrefusal⟩ := tryReadStep_refusal hstep
    rw [hdelivered.silent_eq, update_self]
    refine ⟨fun hrefused ↦ ?_, hkept⟩
    rcases hrefusal hrefused with ⟨-, hacquired⟩ | hodd | hbeaten
    · exact absurd (hout (by rw [hcall]; rfl)) (by rw [hacquired]; exact Bool.noConfusion)
    · exact h.seen_of_now (decide_eq_true (.inr hodd))
    · rw [hcall] at hunbeaten
      exact absurd hbeaten (by rw [hunbeaten]; exact Bool.noConfusion)
  case h_2 pc hcall =>
    obtain rfl := Option.some.inj htrying
    have hstep : tryWriteStep x.1.shared (x.1.threads label.thread) pc label.choice =
        some (p'.shared, moved, signal) := by
      simpa only [machine, step, hcall] using hlocal
    obtain ⟨rfl, hkept, hrefusal⟩ := tryWriteStep_refusal hstep
    rw [hdelivered.silent_eq, update_self]
    refine ⟨fun hrefused ↦ ?_, hkept⟩
    rcases hrefusal hrefused with ⟨-, hacquired⟩ | htaken | ⟨state, free, rfl, hchanged⟩
    · exact absurd (hout (by rw [hcall]; rfl)) (by rw [hacquired]; exact Bool.noConfusion)
    · exact h.seen_of_now (decide_eq_true (held_of_counts hlimited.counts htaken))
    · exact (hloaded _ state free hcall).resolve_left hchanged
  case h_3 => cases htrying

/-- `try_refusals_truthful` on a run in which a `try_write` has loaded a free word and another
thread has acquired a read guard since. -/
theorem try_refusals_truthful_write :
    ∃ (x : Pool (Fin 2) Shared Thread × (Guard → Fin 2 → Bool)) (p' : Pool (Fin 2) Shared Thread),
      (system (Fin 2)).step x.1 ⟨0, .go, none⟩ = some p' ∧ (p'.threads 0).WouldBlock ∧
      ((p'.threads 0).WouldBlock → x.2 .write 0 = true) ∧
        ((p'.threads 0).call ≠ .acquired .write → p'.shared = x.1.shared) := by
  obtain ⟨x, hrun, hmeets, htrying, hnone, hrefused⟩ := System.exists_reachableWhen_of_exec
    (M := watchedCalls (Fin 2)) (fun x label ↦ UnbeatenCondition x.1 label)
    (P := fun x ↦ UnbeatenCondition x.1 ⟨0, .go, none⟩ ∧
      (x.1.threads 0).call.trying = some .write ∧ (x.1.threads 0).guards = 0 ∧
      ((system (Fin 2)).step x.1 ⟨0, .go, none⟩).any (fun p' ↦
        decide (p'.threads 0).WouldBlock) = true)
    [⟨0, .call .tryWrite, none⟩, ⟨0, .go, none⟩, ⟨0, .go, none⟩,
      ⟨1, .call .read, none⟩, ⟨1, .go, none⟩, ⟨1, .go, none⟩, ⟨1, .go, none⟩] (by decide)
  obtain ⟨p', hmove, hwouldBlock⟩ := (Option.any_eq_true _ _).mp hrefused
  exact ⟨x, p', hmove, of_decide_eq_true hwouldBlock,
    try_refusals_truthful hrun hmeets htrying hnone hmove⟩

end Watched

end SyncPrimitives.RwLock
