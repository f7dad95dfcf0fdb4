import SyncPrimitives.Concurrency.Calls
import SyncPrimitives.RwLock.Exclusion

/-!
# The reader limit of the read-write lock

`read` and `try_read` compute `state + 2` from a snapshot of the state word. The test for `u32::MAX
- 1` stands at the top of the outer loop of `read`, where the word is loaded first and where a
failed compare-and-exchange refreshes it, and after the load of `try_read`; the inner loop of `read`
reloads the word behind it. `snapshot_step` follows every refresh to the compare-and-exchange: it
uses a snapshot of at most `u32::MAX - 3` unless a reload has found `u32::MAX - 1`.
`ReloadsBelowLimit` excludes such a reload, and `snapshotsBelow_step` shows that it excludes nothing
else. Under it no `state + 2` overflows, so that half the word counts the readers in every state of
a run (`Counts`), however many threads there are.

`readers_wrap` is a run with such a reload: a reader waits for a writer, the writer goes, and `2 ^
31 - 1` other threads read before the first one reloads the word.
-/

set_option autoImplicit false
set_option relaxedAutoImplicit false

namespace SyncPrimitives.RwLock

open Concurrency Function

/-! ### Snapshots -/

/-- The snapshot of a reader that is about to try to acquire. -/
def Call.snapshot : Call → Option ℕ
  | .read (.compareExchange state _) => some state
  | .tryRead (.compareExchange state _) => some state
  | _ => none

/-- Whether the next access of a reader loads the word, or may do so by a failed
compare-and-exchange. -/
def Call.refreshes : Call → Bool
  | .read .load => true
  | .read .reload => true
  | .read (.compareExchange _ _) => true
  | .tryRead .load => true
  | _ => false

/-- The condition on a step: the load that follows the `wait` in the inner loop of `read` does not
find the word at its limit. -/
def ReloadsBelowLimit {Tid : Type} (p : Pool Tid Shared Thread) (label : Label Tid Choice) :
    Prop :=
  (p.threads label.thread).call = .read .reload → p.shared.state ≠ u32Max - 1

section Local

variable {th : Thread} {state snapshot : ℕ}

theorem even_of_snapshot {call : Call} (h : call.snapshot = some snapshot) : snapshot % 2 = 0 := by
  unfold Call.snapshot at h
  split at h
  case h_1 even => exact Option.some.inj h ▸ even
  case h_2 even => exact Option.some.inj h ▸ even
  case h_3 => cases h

theorem snapshot_readWhile (h : (readWhile th state).call.snapshot = some snapshot) :
    snapshot = state := by
  unfold readWhile at h
  split_ifs at h with heven
  · exact (Option.some.inj h).symm
  · cases h

/-- The top of the outer loop lets no snapshot at the limit through. -/
theorem snapshot_readLoop (hstate : state ≤ u32Max)
    (h : (readLoop th state).call.snapshot = some snapshot) : snapshot ≤ u32Max - 3 := by
  unfold readLoop at h
  split_ifs at h with hmax hlimit
  · cases h
  · cases h
  · have heven := even_of_snapshot h
    obtain rfl := snapshot_readWhile h
    simp only [u32Max_eq] at hmax hlimit hstate ⊢
    omega

theorem snapshot_writeLoop : (writeLoop th state).call.snapshot = none := by
  unfold writeLoop
  split_ifs <;> rfl

theorem snapshot_acquiredCheck {next : Call} (hnext : next.snapshot = none) :
    (acquiredCheck th next).call.snapshot = none := by
  unfold acquiredCheck
  split_ifs
  · rfl
  · exact hnext

theorem snapshot_wake (h : (wake th).call.snapshot = some snapshot) :
    th.call.snapshot = some snapshot := by
  unfold wake at h
  split at h
  case h_2 =>
    unfold readLoop at h
    simp [Thread.goto, Call.snapshot] at h
  case h_4 => exact h
  all_goals simp [Thread.goto, Call.snapshot] at h

end Local

section Steps

variable {Tid : Type} {before after : Shared} {th moved : Thread} {signal : Signal Tid Addr}
  {choice : Choice}

theorem readStep_snapshot {pc : ReadPc} (hstate : before.state ≤ u32Max)
    (hreload : pc = .reload → before.state ≠ u32Max - 1)
    (h : readStep before th pc choice = some (after, moved, signal)) {snapshot : ℕ}
    (hsnapshot : moved.call.snapshot = some snapshot) : snapshot ≤ u32Max - 3 := by
  cases pc <;> cases choice <;> simp only [readStep, reduceCtorEq] at h
  case acquiredCheck.go =>
    obtain ⟨rfl, rfl, -⟩ := quiet_eq_some.mp h
    rw [snapshot_acquiredCheck rfl] at hsnapshot
    cases hsnapshot
  case load.go =>
    obtain ⟨rfl, rfl, -⟩ := quiet_eq_some.mp h
    exact snapshot_readLoop hstate hsnapshot
  case reload.go =>
    obtain ⟨rfl, rfl, -⟩ := quiet_eq_some.mp h
    have heven := even_of_snapshot hsnapshot
    have hbelow := hreload rfl
    obtain rfl := snapshot_readWhile hsnapshot
    simp only [u32Max_eq] at hbelow hstate ⊢
    omega
  case compareExchange.go =>
    split_ifs at h
    all_goals obtain ⟨rfl, rfl, -⟩ := quiet_eq_some.mp h
    · cases hsnapshot
    · exact snapshot_readLoop hstate hsnapshot
  case compareExchange.spurious =>
    obtain ⟨rfl, rfl, -⟩ := quiet_eq_some.mp h
    exact snapshot_readLoop hstate hsnapshot
  case waitMax.go =>
    split_ifs at h
    all_goals obtain ⟨rfl, rfl, -⟩ := quiet_eq_some.mp h
    · cases hsnapshot
    · exact snapshot_readLoop le_rfl hsnapshot
  case waitMax.spurious | asleepMax.spurious =>
    obtain ⟨rfl, rfl, -⟩ := quiet_eq_some.mp h
    exact snapshot_readLoop le_rfl hsnapshot
  all_goals try split_ifs at h
  all_goals obtain ⟨rfl, rfl, -⟩ := quiet_eq_some.mp h
  all_goals cases hsnapshot

theorem tryReadStep_snapshot {pc : TryReadPc} (hstate : before.state ≤ u32Max)
    (h : tryReadStep before th pc choice = some (after, moved, signal)) {snapshot : ℕ}
    (hsnapshot : moved.call.snapshot = some snapshot) : snapshot ≤ u32Max - 3 := by
  cases pc <;> cases choice <;> simp only [tryReadStep, reduceCtorEq] at h
  case acquiredCheck.go =>
    obtain ⟨rfl, rfl, -⟩ := quiet_eq_some.mp h
    rw [snapshot_acquiredCheck rfl] at hsnapshot
    cases hsnapshot
  case load.go =>
    split_ifs at h with hlimit heven
    all_goals obtain ⟨rfl, rfl, -⟩ := quiet_eq_some.mp h
    · cases hsnapshot
    · obtain rfl := Option.some.inj hsnapshot
      simp only [u32Max_eq] at hlimit hstate ⊢
      omega
    · cases hsnapshot
  case compareExchange.go =>
    split_ifs at h
    all_goals obtain ⟨rfl, rfl, -⟩ := quiet_eq_some.mp h
    all_goals cases hsnapshot

/-- Outside `read` and `try_read` no snapshot is taken and no read guard is acquired. -/
theorem step_outside_readers (hread : ∀ pc, th.call ≠ .read pc)
    (htryRead : ∀ pc, th.call ≠ .tryRead pc)
    (h : step before th choice = some (after, moved, signal)) :
    moved.call.snapshot = none ∧ moved.outstanding .read ≤ th.outstanding .read := by
  unfold step at h
  split at h
  case h_1 hcall =>
    have hguards : th.outstanding .read = th.readGuards := by
      simp [Thread.outstanding, Thread.owned, hcall, Call.dropping]
    cases choice with
    | call method =>
      cases method
      all_goals
        obtain ⟨rfl, rfl, -⟩ := quiet_eq_some.mp h
        exact ⟨rfl, hguards.ge⟩
    | drop guard panicking =>
      cases guard
      all_goals
        simp only [idleStep] at h
        split_ifs at h with howned
        obtain ⟨rfl, rfl, -⟩ := quiet_eq_some.mp h
        refine ⟨rfl, ?_⟩
        simp only [Thread.outstanding, Thread.owned, Call.dropping, hcall]
        omega
    | clearPoison =>
      obtain ⟨rfl, rfl, -⟩ := quiet_eq_some.mp h
      exact ⟨by rw [hcall]; rfl, le_rfl⟩
    | go => cases h
    | spurious => cases h
  case h_2 pc hcall => exact absurd hcall (hread pc)
  case h_3 pc hcall =>
    have hguards : th.outstanding .read = th.owned .read := by
      simp [Thread.outstanding, hcall, Call.dropping]
    cases pc <;> cases choice <;> simp only [writeStep, reduceCtorEq] at h
    all_goals try split_ifs at h
    all_goals obtain ⟨rfl, rfl, -⟩ := quiet_eq_some.mp h
    all_goals refine ⟨?_, by simp [hguards, Call.dropping]⟩
    all_goals first | rfl | exact snapshot_writeLoop | exact snapshot_acquiredCheck rfl
  case h_4 pc hcall => exact absurd hcall (htryRead pc)
  case h_5 pc hcall =>
    have hguards : th.outstanding .read = th.owned .read := by
      simp [Thread.outstanding, hcall, Call.dropping]
    cases pc <;> cases choice <;> simp only [tryWriteStep, reduceCtorEq] at h
    all_goals try split_ifs at h
    all_goals obtain ⟨rfl, rfl, -⟩ := quiet_eq_some.mp h
    all_goals refine ⟨?_, by simp [hguards, Call.dropping]⟩
    all_goals first | rfl | exact snapshot_acquiredCheck rfl
  case h_6 hcall =>
    split_ifs at h
    obtain ⟨rfl, rfl, -⟩ := quiet_eq_some.mp h
    exact ⟨rfl, Nat.le_add_right _ _⟩
  case h_7 pc hcall =>
    cases pc <;> cases choice <;> simp only [dropReadStep, quiet, Option.some.injEq, Prod.mk.injEq,
      reduceCtorEq] at h
    all_goals obtain ⟨rfl, rfl, -⟩ := h
    all_goals try split_ifs
    all_goals exact ⟨rfl,
      by simp [Thread.outstanding, Thread.goto, Thread.owned, hcall, Call.dropping]⟩
  case h_8 pc hcall =>
    cases pc <;> cases choice <;> simp only [dropWriteStep, quiet, Option.some.injEq, Prod.mk.injEq,
      reduceCtorEq] at h
    all_goals obtain ⟨rfl, rfl, -⟩ := h
    all_goals try split_ifs
    all_goals exact ⟨rfl,
      by simp [Thread.outstanding, Thread.goto, Thread.owned, hcall, Call.dropping]⟩

/-- A new snapshot is below the limit. Assumes: the condition on the step. -/
theorem snapshot_step (hstate : before.state ≤ u32Max)
    (hreload : th.call = .read .reload → before.state ≠ u32Max - 1)
    (h : step before th choice = some (after, moved, signal)) {snapshot : ℕ}
    (hsnapshot : moved.call.snapshot = some snapshot) : snapshot ≤ u32Max - 3 := by
  by_cases hread : ∃ pc, th.call = .read pc
  · obtain ⟨pc, hcall⟩ := hread
    simp only [step, hcall] at h
    exact readStep_snapshot hstate (fun hpc ↦ hreload (hpc ▸ hcall)) h hsnapshot
  · by_cases htryRead : ∃ pc, th.call = .tryRead pc
    · obtain ⟨pc, hcall⟩ := htryRead
      simp only [step, hcall] at h
      exact tryReadStep_snapshot hstate h hsnapshot
    · rw [(step_outside_readers (not_exists.mp hread) (not_exists.mp htryRead) h).1] at hsnapshot
      cases hsnapshot

/-- At the limit a reader that loads the word is refused. -/
theorem refused_at_limit (hlimit : before.state = u32Max - 1)
    (hrefreshes : th.call.refreshes) (hreload : th.call ≠ .read .reload)
    (hsnapshot : ∀ snapshot, th.call.snapshot = some snapshot → snapshot ≤ u32Max - 3)
    (h : step before th choice = some (after, moved, signal)) :
    after = before ∧ moved = th.ret (.error .tooManyReaders) ∧ signal = .silent := by
  have hloop : readLoop th before.state = th.ret (.error .tooManyReaders) := by
    rw [readLoop, if_neg (by rw [hlimit]; decide), if_pos hlimit]
  unfold step at h
  split at h
  case h_2 pc hcall =>
    rw [hcall] at hrefreshes hreload hsnapshot
    cases pc with
    | load =>
      cases choice <;> simp only [readStep, reduceCtorEq] at h
      obtain ⟨rfl, rfl, rfl⟩ := quiet_eq_some.mp h
      exact ⟨rfl, hloop, rfl⟩
    | reload => exact absurd rfl hreload
    | compareExchange state even =>
      have hbelow := hsnapshot state rfl
      have hmoved : before.state ≠ state := by
        simp only [u32Max_eq] at hlimit hbelow
        omega
      cases choice <;> simp only [readStep, hmoved, if_false, reduceCtorEq] at h
      all_goals
        obtain ⟨rfl, rfl, rfl⟩ := quiet_eq_some.mp h
        exact ⟨rfl, hloop, rfl⟩
    | _ => cases hrefreshes
  case h_4 pc hcall =>
    rw [hcall] at hrefreshes
    cases pc with
    | load =>
      cases choice <;> simp only [tryReadStep, hlimit, if_true, reduceCtorEq] at h
      obtain ⟨rfl, rfl, rfl⟩ := quiet_eq_some.mp h
      exact ⟨rfl, rfl, rfl⟩
    | _ => cases hrefreshes
  all_goals
    rename_i hcall
    rw [hcall] at hrefreshes
    cases hrefreshes

/-- `read` acquires its guard by a compare-and-exchange from the snapshot. -/
theorem snapshot_of_readStep {pc : ReadPc} (hcall : th.call = .read pc)
    (h : readStep before th pc choice = some (after, moved, signal))
    (hmore : th.outstanding .read < moved.outstanding .read) :
    th.call.snapshot = some before.state := by
  have hguards : th.outstanding .read = th.owned .read := by
    simp [Thread.outstanding, hcall, Call.dropping]
  cases pc <;> cases choice <;> simp only [readStep, reduceCtorEq] at h
  case compareExchange.go state even =>
    split_ifs at h with hcas
    all_goals obtain ⟨rfl, rfl, -⟩ := quiet_eq_some.mp h
    · rw [hcall, hcas]
      rfl
    · simp [hguards] at hmore
  all_goals try split_ifs at h
  all_goals obtain ⟨rfl, rfl, -⟩ := quiet_eq_some.mp h
  all_goals simp [hguards, Call.dropping] at hmore

/-- `try_read` acquires its guard by a compare-and-exchange from the snapshot. -/
theorem snapshot_of_tryReadStep {pc : TryReadPc} (hcall : th.call = .tryRead pc)
    (h : tryReadStep before th pc choice = some (after, moved, signal))
    (hmore : th.outstanding .read < moved.outstanding .read) :
    th.call.snapshot = some before.state := by
  have hguards : th.outstanding .read = th.owned .read := by
    simp [Thread.outstanding, hcall, Call.dropping]
  cases pc <;> cases choice <;> simp only [tryReadStep, reduceCtorEq] at h
  case compareExchange.go state even =>
    split_ifs at h with hcas
    all_goals obtain ⟨rfl, rfl, -⟩ := quiet_eq_some.mp h
    · rw [hcall, hcas]
      rfl
    · simp [hguards] at hmore
  all_goals try split_ifs at h
  all_goals obtain ⟨rfl, rfl, -⟩ := quiet_eq_some.mp h
  all_goals simp [hguards, Call.dropping] at hmore

/-- A read guard is acquired by a compare-and-exchange from the snapshot. -/
theorem snapshot_of_acquire (h : step before th choice = some (after, moved, signal))
    (hmore : th.outstanding .read < moved.outstanding .read) :
    th.call.snapshot = some before.state := by
  by_cases hread : ∃ pc, th.call = .read pc
  · obtain ⟨pc, hcall⟩ := hread
    simp only [step, hcall] at h
    exact snapshot_of_readStep hcall h hmore
  · by_cases htryRead : ∃ pc, th.call = .tryRead pc
    · obtain ⟨pc, hcall⟩ := htryRead
      simp only [step, hcall] at h
      exact snapshot_of_tryReadStep hcall h hmore
    · have hless := (step_outside_readers (not_exists.mp hread) (not_exists.mp htryRead) h).2
      omega

/-- The word stays a word. -/
theorem state_le_step (hstate : before.state ≤ u32Max)
    (h : step before th choice = some (after, moved, signal)) : after.state ≤ u32Max := by
  have hmod (n : ℕ) : n % 2 ^ 32 ≤ u32Max :=
    Nat.le_sub_one_of_lt (Nat.mod_lt _ (Nat.two_pow_pos 32))
  cases step_effect h with
  | unchanged hword => exact hword ▸ hstate
  | acquireRead heven hword => exact hword ▸ hmod _
  | acquireWrite hfree hword => exact hword.le
  | setWaiting hshared hword => exact hword ▸ hmod _
  | releaseRead hword => exact hword ▸ hmod _
  | releaseWrite hword => exact hword ▸ Nat.zero_le _

end Steps

/-! ### The count of the readers -/

/-- The word is `u32::MAX` with one write guard and no reader, or half its value is the number of
readers and there is no write guard. -/
def Counts (state reads writes : ℕ) : Prop :=
  (state = u32Max ∧ writes = 1 ∧ reads = 0) ∨ (writes = 0 ∧ state / 2 = reads)

/-- An effect keeps the count. Assumes: a read guard is acquired from a snapshot below the limit. -/
theorem counts_of_effect {before after : Shared} {th moved : Thread}
    {reads writes reads' writes' : ℕ} (hstate : before.state ≤ u32Max)
    (hcounts : Counts before.state reads writes) (heffect : Effect before th after moved)
    (hbelow : th.outstanding .read < moved.outstanding .read → before.state ≤ u32Max - 3)
    (hreads' : reads' + th.outstanding .read = reads + moved.outstanding .read)
    (hwrites' : writes' + th.outstanding .write = writes + moved.outstanding .write)
    (hown : th.outstanding .read ≤ reads ∧ th.outstanding .write ≤ writes) :
    Counts after.state reads' writes' := by
  simp only [Counts, u32Max_eq] at hcounts hstate hbelow ⊢
  cases heffect with
  | unchanged hword hguards =>
    rw [hguards] at hreads' hwrites'
    rw [hword]
    omega
  | acquireRead heven hword hreads hwrites =>
    have hsum : after.state = before.state + 2 := by
      rw [hword]
      exact addU32_of_lt (by omega)
    omega
  | acquireWrite hfree hword hreads hwrites =>
    rw [u32Max_eq] at hword
    omega
  | setWaiting hshared hword hguards =>
    rw [hguards] at hreads' hwrites'
    have hsum : after.state = before.state + 1 := by
      rw [hword]
      exact addU32_of_lt (by omega)
    omega
  | releaseRead hword hreads hwrites =>
    have hdifference : after.state = before.state - 2 := by
      rw [hword]
      exact subU32_of_le (by omega) (by omega)
    omega
  | releaseWrite hword hreads hwrites => omega

/-! ### Runs -/

section Runs

variable {Tid : Type} [DecidableEq Tid] [Fintype Tid] {p p' : Pool Tid Shared Thread}
  {label : Label Tid Choice}

/-- Every snapshot is an even value of at most `u32::MAX - 3`. -/
def SnapshotsBelow (p : Pool Tid Shared Thread) : Prop :=
  ∀ t snapshot, (p.threads t).call.snapshot = some snapshot →
    snapshot % 2 = 0 ∧ snapshot ≤ u32Max - 3

/-- The snapshots are below the limit and the word counts the readers. -/
structure Limited (p : Pool Tid Shared Thread) : Prop where
  word : p.shared.state ≤ u32Max
  below : SnapshotsBelow p
  counts : Counts p.shared.state (readers p) (writers p)

/-- A step takes a snapshot at the limit if and only if it violates the condition. -/
theorem snapshotsBelow_step (hword : p.shared.state ≤ u32Max) (h : SnapshotsBelow p)
    (hmove : (system Tid).step p label = some p') :
    SnapshotsBelow p' ↔ ReloadsBelowLimit p label := by
  obtain ⟨moved, signal, hlocal, hdelivered⟩ := Machine.step_cases hmove
  constructor
  · intro hbelow hcall hlimit
    have hstep : step p.shared (p.threads label.thread) label.choice =
        some (p'.shared, moved, signal) := hlocal
    simp only [step, hcall] at hstep
    cases hchoice : label.choice <;> simp only [hchoice, readStep, reduceCtorEq] at hstep
    obtain ⟨-, rfl, rfl⟩ := quiet_eq_some.mp hstep
    have hself : (p'.threads label.thread).call.snapshot = some p.shared.state := by
      rw [hdelivered.silent_eq, update_self, hlimit]
      rfl
    have hat := (hbelow _ _ hself).2
    rw [hlimit] at hat
    exact absurd hat (by decide)
  · intro hmeets t snapshot hsnapshot
    refine ⟨even_of_snapshot hsnapshot, ?_⟩
    have hold (u : Tid) (hu : (update p.threads label.thread moved u).call.snapshot =
        some snapshot) : snapshot ≤ u32Max - 3 := by
      by_cases hself : u = label.thread
      · rw [hself, update_self] at hu
        exact snapshot_step hword hmeets hlocal hu
      · rw [update_of_ne hself] at hu
        exact (h u snapshot hu).2
    rcases hdelivered.thread t with heq | ⟨_, _, heq⟩ | heq
    · exact hold t (heq ▸ hsnapshot)
    · rw [heq] at hsnapshot
      exact hold t (snapshot_wake hsnapshot)
    · have hsame : p'.threads t = update p.threads label.thread moved t := heq
      rw [hsame] at hsnapshot
      exact hold t hsnapshot

/-- One step keeps the invariant. Assumes: the condition on the step. -/
theorem limited_step (h : Limited p) (hmeets : ReloadsBelowLimit p label)
    (hmove : (system Tid).step p label = some p') : Limited p' := by
  obtain ⟨moved, signal, hlocal, hdelivered⟩ := Machine.step_cases hmove
  refine ⟨state_le_step h.word hlocal, (snapshotsBelow_step h.word h.below hmove).mpr hmeets, ?_⟩
  refine counts_of_effect h.word h.counts (step_effect hlocal) (fun hmore ↦ ?_)
    (outstanding_step .read hdelivered) (outstanding_step .write hdelivered)
    ⟨le_total _ _ _, le_total _ _ _⟩
  exact (h.below _ _ (snapshot_of_acquire hlocal hmore)).2

omit [DecidableEq Tid] in
theorem limited_new : Limited (new Tid) where
  word := Nat.zero_le _
  below := nofun
  counts := by
    have hnew : StateEncoding (new Tid).shared.state (readers (new Tid)) (writers (new Tid)) :=
      stateEncoding_new
    refine .inr (hnew.unlocked ?_)
    show (0 : ℕ) ≠ u32Max
    decide

/-- The invariant holds in every state of a run under the condition. -/
theorem limited {ok : Pool Tid Shared Thread → Label Tid Choice → Prop}
    (hok : ∀ p label, ok p label → ReloadsBelowLimit p label)
    (h : (system Tid).ReachableWhen ok p) : Limited p :=
  h.invariant (P := Limited) limited_new fun _ _ _ _ hlimited hmeets hmove ↦
    limited_step hlimited (hok _ _ hmeets) hmove

instance (p : Pool Tid Shared Thread) (label : Label Tid Choice) :
    Decidable (ReloadsBelowLimit p label) :=
  inferInstanceAs (Decidable (_ → _))

/-- In a run in which no reload in the inner loop of `read` finds `u32::MAX - 1`, every acquiring
compare-and-exchange of a reader uses an even snapshot of at most `u32::MAX - 3`, a reader that
loads `u32::MAX - 1` is refused with the lock unchanged, and half the word is the number of readers.
A step leads to a snapshot at the limit if and only if it is such a reload. -/
theorem reader_limit (h : (system Tid).ReachableWhen ReloadsBelowLimit p) :
    SnapshotsBelow p ∧ Counts p.shared.state (readers p) (writers p) ∧
      ∀ label p', (system Tid).step p label = some p' →
        (SnapshotsBelow p' ↔ ReloadsBelowLimit p label) ∧
        (p.shared.state = u32Max - 1 → (p.threads label.thread).call.refreshes = true →
          ReloadsBelowLimit p label → p'.shared = p.shared ∧
            p'.threads label.thread = (p.threads label.thread).ret (.error .tooManyReaders)) := by
  have hlimited := limited (fun _ _ hmeets ↦ hmeets) h
  refine ⟨hlimited.below, hlimited.counts, fun label p' hmove ↦
    ⟨snapshotsBelow_step hlimited.word hlimited.below hmove, fun hlimit hrefreshes hmeets ↦ ?_⟩⟩
  obtain ⟨moved, signal, hlocal, hdelivered⟩ := Machine.step_cases hmove
  obtain ⟨hshared, rfl, rfl⟩ := refused_at_limit hlimit hrefreshes (fun hcall ↦ hmeets hcall hlimit)
    (fun _ hsnapshot ↦ (hlimited.below _ _ hsnapshot).2) hlocal
  exact ⟨hshared, by rw [hdelivered.silent_eq, update_self]⟩

/-- `reader_limit` on a run of three threads: the second waits for the first, which reads, and the
third has reloaded the word it has waited on. -/
theorem reader_limit_three_threads :
    ∃ p : Pool (Fin 3) Shared Thread, (p.threads 2).call = .read (.wait 3 rfl) ∧
      SnapshotsBelow p ∧ Counts p.shared.state (readers p) (writers p) := by
  obtain ⟨p, hrun, hcall⟩ := System.exists_reachableWhen_of_exec
    (M := system (Fin 3)) ReloadsBelowLimit
    (P := fun p ↦ (p.threads 2).call = .read (.wait 3 rfl))
    [⟨0, .call .read, none⟩, ⟨0, .go, none⟩, ⟨0, .go, none⟩, ⟨0, .go, none⟩, ⟨0, .go, none⟩,
      ⟨1, .call .write, none⟩, ⟨1, .go, none⟩, ⟨1, .go, none⟩, ⟨1, .go, none⟩,
      ⟨2, .call .read, none⟩, ⟨2, .go, none⟩, ⟨2, .go, none⟩, ⟨2, .spurious, none⟩,
      ⟨2, .go, none⟩] (by decide)
  exact ⟨p, hcall, (reader_limit hrun).1, (reader_limit hrun).2.1⟩

end Runs

/-! ### A snapshot at the limit -/

/-- Four threads, and as many others as `u32::MAX - 1` counts readers. -/
abbrev Crowd : Type := Fin 4 ⊕ Fin (2 ^ 31 - 1)

/-- A thread that has called nothing. -/
def fresh : Thread := (new Crowd).threads (.inl 0)

/-- A thread whose `read` has returned a guard. -/
def reading : Thread where
  call := .idle
  acquired := true
  readGuards := 1
  writeGuards := 0
  result := some (.ok .read)

/-- A reader that has waited for a writer is about to reload the word, which is zero again. -/
theorem reachable_reload :
    ∃ p, (system Crowd).Reachable p ∧ p.shared.state = 0 ∧ p.shared.poisoned = false ∧
      (p.threads (.inl 0)).call = .read .reload ∧ ∀ i, p.threads (.inr i) = fresh := by
  have hnew : (system Crowd).Reachable (new Crowd) := .init
  have hreads := Machine.reachable_of_silentRun (M := machine Crowd) (t := .inl 1)
    [.call .read, .go, .go, .go, .go] hnew rfl
  have hwaits := Machine.reachable_of_silentRun (M := machine Crowd) (t := .inl 2)
    [.call .write, .go, .go, .go] hreads rfl
  have hreloads := Machine.reachable_of_silentRun (M := machine Crowd) (t := .inl 0)
    [.call .read, .go, .go, .spurious] hwaits rfl
  have hdrops := Machine.reachable_of_silentRun (M := machine Crowd) (t := .inl 1)
    [.drop .read false, .go, .go] hreloads rfl
  have hwrites := Machine.reachable_of_silentRun (M := machine Crowd) (t := .inl 3)
    [.call .tryWrite, .go, .go, .go, .go, .drop .write false, .go, .go, .go] hdrops rfl
  exact ⟨_, hwrites, rfl, rfl, rfl, fun _ ↦ rfl⟩

/-- One more thread reads. -/
theorem silentRun_read {s : Shared} {t : Crowd} (heven : s.state % 2 = 0)
    (hbelow : s.state + 3 ≤ u32Max) (hpoison : s.poisoned = false) :
    (machine Crowd).silentRun t [.call .read, .go, .go, .go, .go] (s, fresh) =
      some ({ s with state := s.state + 2 }, reading) := by
  have hmax : s.state ≠ u32Max := by omega
  have hlimit : s.state ≠ u32Max - 1 := by omega
  have hsum : addU32 s.state 2 = s.state + 2 := by
    rw [u32Max_eq] at hbelow
    exact addU32_of_lt (by omega)
  simp [Machine.silentRun, Machine.silentStep, machine, step, idleStep, readStep, quiet, fresh, new,
    acquiredCheck, Thread.goto, readLoop, hmax, hlimit, readWhile, heven, Thread.acquire, hsum,
    finish, Thread.ret, hpoison, reading]

/-- One thread after the other reads while the reader that has waited is about to reload. -/
theorem reachable_readers : ∀ k ≤ 2 ^ 31 - 1, ∃ p, (system Crowd).Reachable p ∧
    p.shared.state = 2 * k ∧ p.shared.poisoned = false ∧
      (p.threads (.inl 0)).call = .read .reload ∧
        ∀ i : Fin (2 ^ 31 - 1), p.threads (.inr i) = if i.val < k then reading else fresh := by
  intro k
  induction k with
  | zero =>
    intro _
    obtain ⟨p, hrun, hstate, hpoison, hcall, hfresh⟩ := reachable_reload
    exact ⟨p, hrun, hstate, hpoison, hcall, fun i ↦ by rw [hfresh, if_neg (Nat.not_lt_zero _)]⟩
  | succ k ih =>
    intro hk
    obtain ⟨p, hrun, hstate, hpoison, hcall, hcrowd⟩ := ih (Nat.le_of_succ_le hk)
    have hnext : p.threads (.inr ⟨k, hk⟩) = fresh := by rw [hcrowd, if_neg (Nat.lt_irrefl k)]
    have hread : (machine Crowd).silentRun (.inr ⟨k, hk⟩) [.call .read, .go, .go, .go, .go]
        (p.shared, p.threads (.inr ⟨k, hk⟩)) =
          some ({ p.shared with state := p.shared.state + 2 }, reading) := by
      rw [hnext]
      exact silentRun_read (by omega) (by rw [u32Max_eq]; omega) hpoison
    refine ⟨_, Machine.reachable_of_silentRun _ hrun hread, ?_, hpoison, ?_, fun i ↦ ?_⟩
    · show p.shared.state + 2 = 2 * (k + 1)
      omega
    · show (update p.threads (.inr ⟨k, hk⟩) reading (.inl 0)).call = .read .reload
      rw [update_of_ne Sum.inl_ne_inr, hcall]
    · show update p.threads (.inr ⟨k, hk⟩) reading (.inr i) = _
      by_cases hi : i.val = k
      · obtain rfl : i = ⟨k, hk⟩ := Fin.ext hi
        rw [update_self, if_pos (Nat.lt_succ_self k)]
      · have hne : (Sum.inr i : Crowd) ≠ .inr ⟨k, hk⟩ :=
          fun heq ↦ hi (congrArg Fin.val (Sum.inr.inj heq))
        rw [update_of_ne hne, hcrowd]
        congr 1
        exact propext ⟨fun hlt ↦ Nat.lt_succ_of_lt hlt, fun hlt ↦ by omega⟩

/-- With `2 ^ 31 - 1` readers the reload takes the snapshot `u32::MAX - 1`, and the reader acquires
by a compare-and-exchange that leaves the word at zero. -/
theorem readers_wrap :
    ∃ p, (system Crowd).Reachable p ∧ ¬SnapshotsBelow p ∧
      ∃ label p', (system Crowd).step p label = some p' ∧ p'.shared.state = 0 ∧
        (p'.threads (.inl 0)).call = .acquired .read ∧
          ∀ i : Fin (2 ^ 31 - 1), p'.threads (.inr i) = reading := by
  obtain ⟨p, hrun, hstate, -, hcall, hcrowd⟩ := reachable_readers _ le_rfl
  have heven : p.shared.state % 2 = 0 := by omega
  have hreload : (machine Crowd).step (.inl 0) p.shared (p.threads (.inl 0)) .go =
      some (p.shared, (p.threads (.inl 0)).goto (.read (.compareExchange p.shared.state heven)),
        .silent) := by
    simp [machine, step, hcall, readStep, readWhile, heven, quiet]
  have hwrap : addU32 p.shared.state 2 = 0 := by
    rw [hstate]
    decide
  have hsnapshot := System.ReachableWhen.step hrun trivial (Machine.solo_eq_some hreload)
  let q : Pool Crowd Shared Thread := ⟨p.shared, update p.threads (.inl 0)
    ((p.threads (.inl 0)).goto (.read (.compareExchange p.shared.state heven)))⟩
  have hacquire : (machine Crowd).step (.inl 0) q.shared (q.threads (.inl 0)) .go =
      some ({ p.shared with state := 0 }, (p.threads (.inl 0)).acquire .read, .silent) := by
    simp [q, machine, step, Thread.goto, readStep, quiet, Thread.acquire, hwrap]
  refine ⟨q, hsnapshot, fun hbelow ↦ ?_, ⟨.inl 0, .go, none⟩, _, Machine.solo_eq_some hacquire, rfl,
    ?_, fun i ↦ ?_⟩
  · have hat := hbelow (.inl 0) p.shared.state (by simp [q, Thread.goto, Call.snapshot])
    rw [hstate] at hat
    exact absurd hat.2 (by decide)
  · simp [q, Thread.acquire]
  · simp [q, hcrowd]

end SyncPrimitives.RwLock
