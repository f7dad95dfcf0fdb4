import SyncPrimitives.Arc.Model
import Mathlib.Tactic.SplitIfs

/-!
# Phases of the reference counts

The results on the reference counts depend on where the threads are only through a few phases.
`Event` lists what one step of a thread does to the counters and to the phase of its thread, and
`step_event` shows that every step is one of these.
-/

set_option autoImplicit false
set_option relaxedAutoImplicit false

namespace SyncPrimitives.Arc

open Concurrency Function

variable {Tid α : Type}

/-- The phases of a thread. A `sharing` thread borrows an `Arc` and an `upgrading` one a `Weak`. A
`testing` thread is in `get_mut` before the lock on `ref_count`, `mutLocked` under the lock,
`mutUnique` when it has found `strong_count` to be one, and `mutBorrowed` after `get_mut` has
returned `Some`. A `dropping` thread has taken an `Arc` and not yet subtracted from `strong_count`;
in `into_inner` it is then `ownLocked` under the lock, `reading` when it has found `strong_count` to
be one, and `moving` when it has moved the payload out. The thread that has dropped the last `Arc`
is `destroying` the payload and then `releasing` the implicit weak reference. -/
inductive Phase
  | idle
  | sharing
  | aborting
  | upgrading
  | testing
  | mutLocked
  | mutUnique
  | mutBorrowed
  | dropping
  | ownLocked
  | reading
  | moving
  | destroying
  | releasing
  | droppingWeak
  | freeing
  deriving DecidableEq

/-- A statement on all phases, phase by phase. -/
theorem Phase.forall {P : Phase → Prop} :
    (∀ phase, P phase) ↔ P .idle ∧ P .sharing ∧ P .aborting ∧ P .upgrading ∧ P .testing ∧
      P .mutLocked ∧ P .mutUnique ∧ P .mutBorrowed ∧ P .dropping ∧ P .ownLocked ∧ P .reading ∧
      P .moving ∧ P .destroying ∧ P .releasing ∧ P .droppingWeak ∧ P .freeing := by
  constructor
  · intro h
    exact ⟨h _, h _, h _, h _, h _, h _, h _, h _, h _, h _, h _, h _, h _, h _, h _, h _⟩
  · rintro ⟨h₁, h₂, h₃, h₄, h₅, h₆, h₇, h₈, h₉, h₁₀, h₁₁, h₁₂, h₁₃, h₁₄, h₁₅, h₁₆⟩ phase
    cases phase <;> assumption

/-- The phase of a position inside the drop of an `Arc`. -/
def DropArcPc.phase : DropArcPc → Phase
  | .fetchSub => .dropping
  | .dropData => .destroying
  | .dropWeak .fetchSub => .releasing
  | .dropWeak .free => .freeing

/-- The phase of a position. -/
def Call.phase : Call α → Phase
  | .idle => .idle
  | .clone .fetchAdd => .sharing
  | .clone .abort => .aborting
  | .downgrade _ => .sharing
  | .deref => .sharing
  | .upgrade _ => .upgrading
  | .getMut .compareExchange => .testing
  | .getMut .load => .mutLocked
  | .getMut (.store true) => .mutUnique
  | .getMut (.store false) => .mutLocked
  | .getMut .borrowed => .mutBorrowed
  | .intoInner .compareExchange => .dropping
  | .intoInner .load => .ownLocked
  | .intoInner .store => .ownLocked
  | .intoInner .read => .reading
  | .intoInner (.free _) => .moving
  | .intoInner (.drop pc) => pc.phase
  | .dropArc pc => pc.phase
  | .dropWeak .fetchSub => .droppingWeak
  | .dropWeak .free => .freeing

/-- The phase of a thread. -/
def Thread.phase (th : Thread α) : Phase := th.call.phase

theorem phase_of_call {th : Thread α} {call : Call α} (hcall : th.call = call) :
    th.phase = call.phase := by
  rw [Thread.phase, hcall]

/-! ### What a step does -/

/-- The steps of a thread. -/
inductive Event (before : Shared α) (th : Thread α) (after : Shared α) (moved : Thread α) : Prop
  | stay (hbusy : th.phase ≠ .idle) (hafter : after = before.touch)
      (hphase : moved.phase = th.phase)
  | finish (hafter : after = before.finish) (hbefore : th.phase = .aborting)
      (hphase : moved.phase = .aborting)
  | share (howned : before.mutBorrows < before.arcs)
      (hafter : after = { before with arcBorrows := before.arcBorrows + 1 })
      (hbefore : th.phase = .idle) (hphase : moved.phase = .sharing)
  | unshare (hafter : after = { before.touch with arcBorrows := before.arcBorrows - 1 })
      (hbefore : th.phase = .sharing) (hphase : moved.phase = .idle)
  | clone (hcount : before.strongCount ≤ maxRefCount)
      (hafter : after = { before.touch with
        strongCount := addUsize before.strongCount 1
        arcs := before.arcs + 1
        arcBorrows := before.arcBorrows - 1 })
      (hbefore : th.phase = .sharing) (hphase : moved.phase = .idle)
  | overflow
      (hafter : after = { before.touch with strongCount := addUsize before.strongCount 1 })
      (hbefore : th.phase = .sharing) (hphase : moved.phase = .aborting)
  | downgrade (hcall : th.call = .downgrade (.compareExchange before.refCount))
      (hafter : after = { before.touch with
        refCount := addUsize before.refCount 1
        weaks := before.weaks + 1
        arcBorrows := before.arcBorrows - 1 })
      (hbefore : th.phase = .sharing) (hphase : moved.phase = .idle)
  | borrowWeak (howned : 0 < before.weaks)
      (hafter : after = { before with weakBorrows := before.weakBorrows + 1 })
      (hbefore : th.phase = .idle) (hphase : moved.phase = .upgrading)
  | upgrade (hcall : th.call = .upgrade (.compareExchange before.strongCount))
      (hafter : after = { before.touch with
        strongCount := addUsize before.strongCount 1
        arcs := before.arcs + 1
        weakBorrows := before.weakBorrows - 1 })
      (hbefore : th.phase = .upgrading) (hphase : moved.phase = .idle)
  | failUpgrade (hresult : moved.result ≠ some (.upgraded true))
      (hafter : after = { before.touch with weakBorrows := before.weakBorrows - 1 })
      (hbefore : th.phase = .upgrading) (hphase : moved.phase = .idle)
  | borrowMut (hfree : before.mutBorrows + min before.arcBorrows 1 < before.arcs)
      (hafter : after = { before with mutBorrows := before.mutBorrows + 1 })
      (hbefore : th.phase = .idle) (hphase : moved.phase = .testing)
  | lockMut (hone : before.refCount = 1)
      (hafter : after = { before.touch with refCount := usizeMax })
      (hbefore : th.phase = .testing) (hphase : moved.phase = .mutLocked)
  | failMut (hafter : after = { before.touch with mutBorrows := before.mutBorrows - 1 })
      (hbefore : th.phase = .testing) (hphase : moved.phase = .idle)
  | findUnique (hone : before.strongCount = 1) (hafter : after = before.touch)
      (hbefore : th.phase = .mutLocked) (hphase : moved.phase = .mutUnique)
  | unlockMut
      (hafter : after = { before.touch with
        refCount := 1
        mutBorrows := before.mutBorrows - 1 })
      (hbefore : th.phase = .mutLocked) (hphase : moved.phase = .idle)
  | handOut (hafter : after = { before.touch with refCount := 1 })
      (hbefore : th.phase = .mutUnique) (hphase : moved.phase = .mutBorrowed)
  | write (value : α) (hafter : after = { before.touch with data := some value })
      (hbefore : th.phase = .mutBorrowed) (hphase : moved.phase = .mutBorrowed)
  | endBorrow (hafter : after = { before with mutBorrows := before.mutBorrows - 1 })
      (hbefore : th.phase = .mutBorrowed) (hphase : moved.phase = .idle)
  | takeArc (hfree : before.mutBorrows + min before.arcBorrows 1 < before.arcs)
      (hafter : after = { before with arcs := before.arcs - 1 })
      (hbefore : th.phase = .idle) (hphase : moved.phase = .dropping)
  | lockOwn (hone : before.refCount = 1)
      (hafter : after = { before.touch with refCount := usizeMax })
      (hbefore : th.phase = .dropping) (hphase : moved.phase = .ownLocked)
  | findSole (hone : before.strongCount = 1) (hafter : after = before.touch)
      (hbefore : th.phase = .ownLocked) (hphase : moved.phase = .reading)
  | unlockOwn (hafter : after = { before.touch with refCount := 1 })
      (hbefore : th.phase = .ownLocked) (hphase : moved.phase = .dropping)
  | moveOut (hafter : after = { before.touch with data := none, removals := before.removals + 1 })
      (hbefore : th.phase = .reading) (hphase : moved.phase = .moving)
  | freeOwn (hafter : after = { before.touch with frees := before.frees + 1 })
      (hbefore : th.phase = .moving) (hphase : moved.phase = .idle)
  | drop (hcount : before.strongCount ≠ 1)
      (hafter : after = { before.touch with strongCount := subUsize before.strongCount 1 })
      (hbefore : th.phase = .dropping) (hphase : moved.phase = .idle)
  | dropLast (hcount : before.strongCount = 1)
      (hafter : after = { before.touch with strongCount := subUsize before.strongCount 1 })
      (hbefore : th.phase = .dropping) (hphase : moved.phase = .destroying)
  | destroy (hafter : after = { before.touch with data := none, removals := before.removals + 1 })
      (hbefore : th.phase = .destroying) (hphase : moved.phase = .releasing)
  | takeWeak (hfree : min before.weakBorrows 1 < before.weaks)
      (hafter : after = { before with weaks := before.weaks - 1 })
      (hbefore : th.phase = .idle) (hphase : moved.phase = .droppingWeak)
  | release (hafter : after = { before.touch with refCount := subUsize before.refCount 1 })
      (hbefore : th.phase = .releasing ∨ th.phase = .droppingWeak)
      (hphase : moved.phase = if before.refCount = 1 then .freeing else .idle)
  | free (hafter : after = { before.touch with frees := before.frees + 1 })
      (hbefore : th.phase = .freeing) (hphase : moved.phase = .idle)

section Steps

variable {before after : Shared α} {th moved : Thread α}

@[simp] theorem call_goto {call : Call α} : (th.goto call).call = call := rfl

@[simp] theorem call_ret {result : Result α} : (th.ret result).call = .idle := rfl

@[simp] theorem phase_goto {call : Call α} : (th.goto call).phase = call.phase := rfl

@[simp] theorem phase_ret {result : Result α} : (th.ret result).phase = .idle := rfl

theorem cloneStep_event {pc : ClonePc} (hcall : th.call = .clone pc)
    (h : cloneStep before th pc = (after, moved)) : Event before th after moved := by
  have hbefore := phase_of_call hcall
  cases pc <;> simp only [cloneStep] at h
  case fetchAdd =>
    split_ifs at h with hcount
    all_goals obtain ⟨rfl, rfl⟩ := Prod.mk.inj h
    · exact .overflow rfl hbefore rfl
    · exact .clone (not_lt.mp hcount) rfl hbefore rfl
  case abort =>
    obtain ⟨rfl, rfl⟩ := Prod.mk.inj h
    exact .finish rfl hbefore hbefore

theorem downgradeLoop_event {weakCount : ℕ} (hbefore : th.phase = .sharing)
    (h : downgradeLoop before.touch th weakCount = (after, moved)) :
    Event before th after moved := by
  have hbusy : th.phase ≠ .idle := by rw [hbefore]; exact Phase.noConfusion
  unfold downgradeLoop at h
  split_ifs at h
  all_goals obtain ⟨rfl, rfl⟩ := Prod.mk.inj h
  · exact .stay hbusy rfl hbefore.symm
  · exact .stay hbusy rfl hbefore.symm
  · exact .unshare (by rw [touch_arcBorrows]) hbefore rfl

theorem downgradeStep_event {pc : DowngradePc} (hcall : th.call = .downgrade pc)
    (h : downgradeStep before th pc = (after, moved)) : Event before th after moved := by
  have hbefore : th.phase = .sharing := phase_of_call hcall
  cases pc with
  | load => exact downgradeLoop_event hbefore h
  | compareExchange weakCount =>
    simp only [downgradeStep] at h
    split_ifs at h with hsame
    · obtain ⟨rfl, rfl⟩ := Prod.mk.inj h
      subst hsame
      exact .downgrade hcall rfl hbefore rfl
    · exact downgradeLoop_event hbefore h

theorem upgradeLoop_event {strongRefs : ℕ} (hbefore : th.phase = .upgrading)
    (h : upgradeLoop before.touch th strongRefs = (after, moved)) :
    Event before th after moved := by
  have hbusy : th.phase ≠ .idle := by rw [hbefore]; exact Phase.noConfusion
  unfold upgradeLoop at h
  split_ifs at h
  all_goals obtain ⟨rfl, rfl⟩ := Prod.mk.inj h
  · exact .failUpgrade (fun hsome ↦ by cases hsome) (by rw [touch_weakBorrows]) hbefore rfl
  · exact .stay hbusy rfl hbefore.symm
  · exact .failUpgrade (fun hsome ↦ by cases hsome) (by rw [touch_weakBorrows]) hbefore rfl

theorem upgradeStep_event {pc : UpgradePc} (hcall : th.call = .upgrade pc)
    (h : upgradeStep before th pc = (after, moved)) : Event before th after moved := by
  have hbefore : th.phase = .upgrading := phase_of_call hcall
  cases pc with
  | load => exact upgradeLoop_event hbefore h
  | compareExchange strongRefs =>
    simp only [upgradeStep] at h
    split_ifs at h with hsame
    · obtain ⟨rfl, rfl⟩ := Prod.mk.inj h
      subst hsame
      exact .upgrade hcall rfl hbefore rfl
    · exact upgradeLoop_event hbefore h

theorem getMutStep_event {pc : GetMutPc} (hcall : th.call = .getMut pc)
    (h : getMutStep before th pc = (after, moved)) : Event before th after moved := by
  have hbefore := phase_of_call hcall
  cases pc with
  | compareExchange =>
    simp only [getMutStep] at h
    split_ifs at h with hone
    all_goals obtain ⟨rfl, rfl⟩ := Prod.mk.inj h
    · exact .lockMut hone rfl hbefore rfl
    · exact .failMut rfl hbefore rfl
  | load =>
    obtain ⟨rfl, rfl⟩ := Prod.mk.inj h
    by_cases hone : before.strongCount = 1
    · refine .findUnique hone rfl hbefore ?_
      rw [phase_goto, beq_iff_eq.mpr hone]
      rfl
    · refine .stay (by rw [hbefore]; exact Phase.noConfusion) rfl ?_
      rw [phase_goto, beq_eq_false_iff_ne.mpr hone, hbefore]
      rfl
  | store unique =>
    cases unique <;> simp only [getMutStep, if_true, if_false, Bool.false_eq_true] at h
    all_goals obtain ⟨rfl, rfl⟩ := Prod.mk.inj h
    · exact .unlockMut rfl hbefore rfl
    · exact .handOut rfl hbefore rfl
  | borrowed =>
    obtain ⟨rfl, rfl⟩ := Prod.mk.inj h
    exact .endBorrow rfl hbefore rfl

theorem dropWeakStep_event (position : DropWeakPc → Call α) {result : Result α} {pc : DropWeakPc}
    (hfetchSub : (position .fetchSub).phase = .releasing ∨
      (position .fetchSub).phase = .droppingWeak)
    (hfree : (position .free).phase = .freeing) (hcall : th.call = position pc)
    (h : dropWeakStep before th position result pc = (after, moved)) :
    Event before th after moved := by
  have hbefore := phase_of_call hcall
  cases pc with
  | fetchSub =>
    rw [← hbefore] at hfetchSub
    simp only [dropWeakStep] at h
    split_ifs at h with hone
    all_goals obtain ⟨rfl, rfl⟩ := Prod.mk.inj h
    · exact .release rfl hfetchSub (by simp [hone, hfree])
    · exact .release rfl hfetchSub (by simp [hone])
  | free =>
    obtain ⟨rfl, rfl⟩ := Prod.mk.inj h
    exact .free rfl (hbefore.trans hfree) rfl

theorem dropArcStep_event (position : DropArcPc → Call α) {result : Result α} {pc : DropArcPc}
    (hphase : ∀ pc, (position pc).phase = pc.phase) (hcall : th.call = position pc)
    (h : dropArcStep before th position result pc = (after, moved)) :
    Event before th after moved := by
  have hbefore := (phase_of_call hcall).trans (hphase pc)
  cases pc with
  | fetchSub =>
    simp only [dropArcStep] at h
    split_ifs at h with hlast
    all_goals obtain ⟨rfl, rfl⟩ := Prod.mk.inj h
    · exact .dropLast hlast rfl hbefore (hphase _)
    · exact .drop hlast rfl hbefore rfl
  | dropData =>
    obtain ⟨rfl, rfl⟩ := Prod.mk.inj h
    exact .destroy rfl hbefore (hphase _)
  | dropWeak pc =>
    simp only [dropArcStep] at h
    exact dropWeakStep_event (fun pc ↦ position (.dropWeak pc)) (.inl (hphase _)) (hphase _) hcall h

theorem intoInnerStep_event {pc : IntoInnerPc α} (hcall : th.call = .intoInner pc)
    (h : intoInnerStep before th pc = (after, moved)) : Event before th after moved := by
  have hbefore := phase_of_call hcall
  cases pc with
  | compareExchange =>
    simp only [intoInnerStep] at h
    split_ifs at h with hone
    all_goals obtain ⟨rfl, rfl⟩ := Prod.mk.inj h
    · exact .lockOwn hone rfl hbefore rfl
    · exact .stay (by rw [hbefore]; exact Phase.noConfusion) rfl hbefore.symm
  | load =>
    obtain ⟨rfl, rfl⟩ := Prod.mk.inj h
    by_cases hone : before.strongCount = 1
    · exact .findSole hone rfl hbefore (by simp [hone, Call.phase])
    · exact .stay (by rw [hbefore]; exact Phase.noConfusion) rfl
        (by simp [hone, hbefore, Call.phase])
  | store =>
    obtain ⟨rfl, rfl⟩ := Prod.mk.inj h
    exact .unlockOwn rfl hbefore rfl
  | read =>
    obtain ⟨rfl, rfl⟩ := Prod.mk.inj h
    exact .moveOut rfl hbefore rfl
  | free data =>
    obtain ⟨rfl, rfl⟩ := Prod.mk.inj h
    exact .freeOwn rfl hbefore rfl
  | drop pc =>
    simp only [intoInnerStep] at h
    exact dropArcStep_event (fun pc ↦ .intoInner (.drop pc)) (fun _ ↦ rfl) hcall h

theorem idleStep_event {choice : Choice α} (hcall : th.call = .idle)
    (h : idleStep before th choice = some (after, moved)) : Event before th after moved := by
  have hbefore : th.phase = .idle := phase_of_call hcall
  cases choice with
  | write value => cases h
  | access => cases h
  | _ =>
    simp only [idleStep, Shared.hasArc, Shared.hasFreeArc, Shared.hasFreeWeak,
      decide_eq_true_eq] at h
    split_ifs at h with henabled
    obtain ⟨rfl, rfl⟩ := by simpa using h
    first
      | exact .share henabled rfl hbefore rfl
      | exact .borrowWeak henabled rfl hbefore rfl
      | exact .borrowMut henabled rfl hbefore rfl
      | exact .takeArc henabled rfl hbefore rfl
      | exact .takeWeak henabled rfl hbefore rfl

/-- Every step of a thread is one of the events. -/
theorem step_event {choice : Choice α} (h : step before th choice = some (after, moved)) :
    Event before th after moved := by
  unfold step at h
  split_ifs at h
  split at h
  case h_1 hcall => exact idleStep_event hcall h
  case h_2 hcall => exact cloneStep_event hcall (Option.some.inj h)
  case h_3 hcall => exact downgradeStep_event hcall (Option.some.inj h)
  case h_4 hcall =>
    obtain ⟨rfl, rfl⟩ := Prod.mk.inj (Option.some.inj h)
    exact .unshare rfl (phase_of_call hcall) rfl
  case h_5 hcall => exact upgradeStep_event hcall (Option.some.inj h)
  case h_6 hcall => exact getMutStep_event hcall (Option.some.inj h)
  case h_7 value hcall =>
    obtain ⟨rfl, rfl⟩ := Prod.mk.inj (Option.some.inj h)
    exact .write value rfl (phase_of_call hcall) (phase_of_call hcall)
  case h_8 hcall => exact intoInnerStep_event hcall (Option.some.inj h)
  case h_9 hcall => exact dropArcStep_event .dropArc (fun _ ↦ rfl) hcall (Option.some.inj h)
  case h_10 hcall => exact dropWeakStep_event .dropWeak (.inr rfl) rfl hcall (Option.some.inj h)
  case h_11 => cases h

/-- The calls that borrow an `Arc` handle. -/
theorem call_of_sharing (h : th.phase = .sharing) :
    th.call = .clone .fetchAdd ∨ (∃ pc, th.call = .downgrade pc) ∨ th.call = .deref := by
  unfold Thread.phase at h
  cases hcall : th.call with
  | clone pc => cases pc <;> simp_all [Call.phase]
  | downgrade pc => exact .inr (.inl ⟨pc, rfl⟩)
  | deref => exact .inr (.inr rfl)
  | getMut pc =>
    rw [hcall] at h
    rcases pc with _ | _ | (_ | _) | _ <;> cases h
  | intoInner pc =>
    rw [hcall] at h
    rcases pc with _ | _ | _ | _ | _ | (_ | _ | (_ | _)) <;> cases h
  | dropArc pc =>
    rw [hcall] at h
    rcases pc with _ | _ | (_ | _) <;> cases h
  | dropWeak pc =>
    rw [hcall] at h
    rcases pc with _ | _ <;> cases h
  | _ =>
    rw [hcall] at h
    cases h

theorem phase_downgradeStep {pc : DowngradePc} :
    (downgradeStep before th pc).2.phase ≠ .aborting := by
  cases pc <;> simp only [downgradeStep, downgradeLoop]
  all_goals split_ifs
  all_goals simp [Call.phase]

/-- Only the `fetch_add` of a clone leads to its abort. -/
theorem call_of_overflow {choice : Choice α} (h : step before th choice = some (after, moved))
    (hbefore : th.phase = .sharing) (hphase : moved.phase = .aborting) :
    th.call = .clone .fetchAdd := by
  have hcalls := call_of_sharing hbefore
  unfold step at h
  split_ifs at h
  split at h
  case h_3 pc hcall =>
    have hnot : (downgradeStep before th pc).2.phase ≠ .aborting := phase_downgradeStep
    rw [Option.some.inj h] at hnot
    exact absurd hphase hnot
  case h_4 hcall =>
    obtain ⟨-, rfl⟩ := Prod.mk.inj (Option.some.inj h)
    cases hphase
  case h_11 => cases h
  all_goals
    rename_i hcall
    rw [hcall] at hcalls
    rcases hcalls with hcalls | ⟨_, hcalls⟩ | hcalls
    all_goals first | exact hcall.trans hcalls | cases hcalls

/-- No step makes `strong_count` more than a word holds. -/
theorem Event.strongCount_le (h : Event before th after moved)
    (hword : before.strongCount ≤ usizeMax) : after.strongCount ≤ usizeMax := by
  have htouch : before.touch.strongCount = before.strongCount := touch_strongCount
  have hkept (hsame : after.strongCount = before.strongCount) : after.strongCount ≤ usizeMax :=
    hsame.trans_le hword
  have hadded (hcount : after.strongCount = addUsize before.strongCount 1) :
      after.strongCount ≤ usizeMax := by
    rw [hcount, addUsize, usizeMax_eq]
    omega
  have hsubtracted (hcount : after.strongCount = subUsize before.strongCount 1) :
      after.strongCount ≤ usizeMax := by
    rw [hcount, subUsize, usizeMax_eq]
    omega
  cases h
  case stay hbusy hafter hphase => exact hkept (by rw [hafter, htouch])
  case clone | overflow | upgrade =>
    rename_i hafter _ _
    exact hadded (by rw [hafter])
  case drop | dropLast =>
    rename_i hafter _ _
    exact hsubtracted (by rw [hafter])
  all_goals
    rename_i hafter _ _
    have hsame := congrArg Shared.strongCount hafter
    first
      | exact hkept hsame
      | exact hkept (hsame.trans htouch)

/-- The payload stays, or is replaced, unless it is destroyed or moved out. -/
theorem Event.data (h : Event before th after moved) (hnone : after.removals = 0) :
    before.removals = 0 ∧ (after.data = before.data ∨ ∃ value, after.data = some value) := by
  have htouch : before.touch.removals = before.removals ∧ before.touch.data = before.data :=
    ⟨touch_removals, touch_data⟩
  have hkept (hremovals : after.removals = before.removals) (hdata : after.data = before.data) :
      before.removals = 0 ∧ (after.data = before.data ∨ ∃ value, after.data = some value) :=
    ⟨hremovals.symm.trans hnone, .inl hdata⟩
  cases h
  case write value hafter _ _ =>
    subst hafter
    exact ⟨htouch.1.symm.trans hnone, .inr ⟨value, rfl⟩⟩
  case moveOut hafter _ _ =>
    subst hafter
    cases hnone
  case destroy hafter _ _ =>
    subst hafter
    cases hnone
  case stay hafter _ =>
    subst hafter
    exact hkept htouch.1 htouch.2
  all_goals
    rename_i hafter _ _
    subst hafter
    first
      | exact hkept rfl rfl
      | exact hkept htouch.1 htouch.2

/-- A clone that is about to abort does nothing else. -/
theorem Event.aborting (h : Event before th after moved) (hbefore : th.phase = .aborting) :
    moved.phase = .aborting := by
  cases h
  case stay hphase => exact hphase.trans hbefore
  case finish hphase => exact hphase
  case release hother _ =>
    rw [hbefore] at hother
    rcases hother with hother | hother <;> cases hother
  all_goals
    rename_i hother _
    cases hbefore.symm.trans hother

/-! ### What a thread has loaded -/

/-- What a thread knows about the count it has loaded. -/
def Thread.Loaded (th : Thread α) : Prop :=
  match th.call with
  | .downgrade (.compareExchange weakCount) => weakCount ≤ maxRefCount
  | .upgrade (.compareExchange strongRefs) => strongRefs ≠ 0 ∧ strongRefs ≤ maxRefCount
  | _ => True

theorem Thread.Loaded.of_phase (hdowngrade : th.phase ≠ .sharing)
    (hupgrade : th.phase ≠ .upgrading) : th.Loaded := by
  unfold Thread.Loaded
  split
  case h_1 hcall => exact absurd (phase_of_call hcall) hdowngrade
  case h_2 hcall => exact absurd (phase_of_call hcall) hupgrade
  case h_3 => trivial

theorem downgradeLoop_loaded {shared : Shared α} {weakCount : ℕ}
    (h : downgradeLoop shared th weakCount = (after, moved)) :
    moved.Loaded := by
  unfold downgradeLoop at h
  split_ifs at h with _ hsmall
  all_goals obtain ⟨-, rfl⟩ := Prod.mk.inj h
  · trivial
  · exact hsmall
  · trivial

theorem upgradeLoop_loaded {shared : Shared α} {strongRefs : ℕ}
    (h : upgradeLoop shared th strongRefs = (after, moved)) :
    moved.Loaded := by
  unfold upgradeLoop at h
  split_ifs at h with hzero hsmall
  all_goals obtain ⟨-, rfl⟩ := Prod.mk.inj h
  · trivial
  · exact ⟨hzero, hsmall⟩
  · trivial

theorem idleStep_loaded {choice : Choice α}
    (h : idleStep before th choice = some (after, moved)) : moved.Loaded := by
  cases choice with
  | write value => cases h
  | access => cases h
  | _ =>
    simp only [idleStep, Option.ite_none_right_eq_some, Option.some.injEq, Prod.mk.injEq] at h
    obtain ⟨-, -, rfl⟩ := h
    trivial

/-- Only an idle thread starts to borrow a handle. -/
theorem Thread.Loaded.of_event (h : Event before th after moved)
    (hphase : th.phase ≠ .idle ∧ th.phase ≠ .sharing ∧ th.phase ≠ .upgrading) : moved.Loaded := by
  obtain ⟨hidle, hsharing, hupgrading⟩ := hphase
  apply Thread.Loaded.of_phase
  all_goals
    cases h
    case stay hphase => rw [hphase]; assumption
    case share hbefore _ => exact absurd hbefore hidle
    case borrowWeak hbefore _ => exact absurd hbefore hidle
    case release hphase =>
      rw [hphase]
      split_ifs <;> exact Phase.noConfusion
    all_goals
      rename_i hphase
      rw [hphase]
      exact Phase.noConfusion

/-- Every step of a thread keeps what it knows. -/
theorem step_loaded {choice : Choice α}
    (hloaded : th.Loaded) (h : step before th choice = some (after, moved)) : moved.Loaded := by
  have hevent := step_event h
  unfold step at h
  split_ifs at h
  split at h
  case h_1 => exact idleStep_loaded h
  case h_2 pc hcall =>
    cases pc <;> simp only [cloneStep, Option.some.injEq] at h
    case fetchAdd =>
      split_ifs at h
      all_goals
        obtain ⟨-, rfl⟩ := Prod.mk.inj h
        trivial
    case abort =>
      obtain ⟨-, rfl⟩ := Prod.mk.inj h
      exact hloaded
  case h_3 pc hcall =>
    cases pc with
    | load => exact downgradeLoop_loaded (Option.some.inj h)
    | compareExchange weakCount =>
      simp only [downgradeStep, Option.some.injEq] at h
      split_ifs at h
      · obtain ⟨-, rfl⟩ := Prod.mk.inj h
        trivial
      · exact downgradeLoop_loaded h
  case h_4 =>
    obtain ⟨-, rfl⟩ := Prod.mk.inj (Option.some.inj h)
    trivial
  case h_5 pc hcall =>
    cases pc with
    | load => exact upgradeLoop_loaded (Option.some.inj h)
    | compareExchange weakCount =>
      simp only [upgradeStep, Option.some.injEq] at h
      split_ifs at h
      · obtain ⟨-, rfl⟩ := Prod.mk.inj h
        trivial
      · exact upgradeLoop_loaded h
  case h_6 pc hcall =>
    refine .of_event hevent ?_
    rw [phase_of_call hcall]
    rcases pc with _ | _ | (_ | _) | _ <;> simp [Call.phase]
  case h_7 =>
    obtain ⟨-, rfl⟩ := Prod.mk.inj (Option.some.inj h)
    exact hloaded
  case h_8 pc hcall =>
    refine .of_event hevent ?_
    rw [phase_of_call hcall]
    rcases pc with _ | _ | _ | _ | _ | (_ | _ | (_ | _)) <;> simp [Call.phase, DropArcPc.phase]
  case h_9 pc hcall =>
    refine .of_event hevent ?_
    rw [phase_of_call hcall]
    rcases pc with _ | _ | (_ | _) <;> simp [Call.phase, DropArcPc.phase]
  case h_10 pc hcall =>
    refine .of_event hevent ?_
    rw [phase_of_call hcall]
    rcases pc with _ | _ <;> simp [Call.phase]
  case h_11 => cases h
end Steps

end SyncPrimitives.Arc
