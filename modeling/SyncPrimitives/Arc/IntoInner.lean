import SyncPrimitives.Arc.Lifetime
import Mathlib.Data.List.ReduceOption

/-!
# All handles consumed by `into_inner`

An `into_inner` decides with its `compare_exchange` on `ref_count` or with its `load` of
`strong_count`, and gives up if one of them does not find one; only after that it subtracts its own
handle from `strong_count`. The word it has found can be due to a call that has given up itself and
has not yet dropped its handle, so that the last two calls can both give up
(`into_inner_returns_none_twice`).

`into_inner_yields_once` is the exact condition, on where the other calls are when the last call
decides. If all handles of a block without a `Weak` go into `into_inner`, exactly one of the calls
returns `Some`, and none destroys the payload, if and only if no other call holds the lock on
`ref_count` when the last call to decide does its `compare_exchange`, and every other call has
subtracted its handle when it does its `load`. What the two words hold follows from the positions
(`givesUp_eq_obstructed`). A call that is not the last to decide may be refused without harm.
-/

set_option autoImplicit false
set_option relaxedAutoImplicit false

namespace SyncPrimitives.Arc

open Concurrency Function

variable {Tid α : Type}

/-! ### The calls and their outcome -/

/-- One for a position inside `into_inner`. -/
def Call.consuming : Call α → ℕ
  | .intoInner _ => 1
  | _ => 0

/-- One for a position inside `into_inner` before the access that decides: the `compare_exchange`,
or the `load` under the lock. -/
def Call.undecided : Call α → ℕ
  | .intoInner .compareExchange => 1
  | .intoInner .load => 1
  | _ => 0

/-- Whether the next access makes the `into_inner` of the thread give up. -/
def givesUp (shared : Shared α) (th : Thread α) : Bool :=
  match th.call with
  | .intoInner .compareExchange => decide (shared.refCount ≠ 1)
  | .intoInner .load => decide (shared.strongCount ≠ 1)
  | _ => false

/-- A position inside `into_inner` with the lock on `ref_count`. -/
def Call.locking : Call α → Bool
  | .intoInner .load => true
  | .intoInner .store => true
  | .intoInner .read => true
  | .intoInner (.free _) => true
  | _ => false

/-- A position inside `into_inner` whose handle has not been subtracted from `strong_count`. -/
def Call.unsubtracted : Call α → Bool
  | .intoInner .compareExchange => true
  | .intoInner (.drop .fetchSub) => true
  | call => call.locking

/-- What `into_inner` has returned to a thread that has just left it. -/
def Thread.returned (th : Thread α) : List (Option (ManuallyDrop α)) :=
  match th.call, th.result with
  | .idle, some (.intoInner result) => [result]
  | _, _ => []

/-- What the calls of a run have come to: what they have returned, one after the other, how often
the payload has been destroyed in a drop, and whether the last call to decide has been obstructed by
another one. -/
structure Outcome (α : Type) where
  results : List (Option (ManuallyDrop α))
  destroyed : ℕ
  obstructed : Bool

/-- A step of a thread that does nothing but consume handles. -/
def OnlyIntoInner (label : Label Tid (Choice α)) : Prop :=
  label.choice = .intoInner ∨ label.choice = .access

instance [DecidableEq α] (label : Label Tid (Choice α)) : Decidable (OnlyIntoInner label) :=
  inferInstanceAs (Decidable (_ ∨ _))

section Pool

variable [Fintype Tid]

/-- The handles that have not been given up: those that no call has consumed, and those of the calls
that have yet to decide. -/
def undecided (p : Pool Tid (Shared α) (Thread α)) : ℕ :=
  p.shared.arcs + total (fun th ↦ th.call.undecided) p.threads

/-- The calls in progress. -/
def consuming (p : Pool Tid (Shared α) (Thread α)) : ℕ :=
  total (fun th ↦ th.call.consuming) p.threads

/-- Another call is in the way of a thread that is about to decide: it holds the lock on `ref_count`
at the `compare_exchange`, or it has not subtracted its handle at the `load`. -/
def obstructed [DecidableEq Tid] (p : Pool Tid (Shared α) (Thread α)) (t : Tid) : Bool :=
  match (p.threads t).call with
  | .intoInner .compareExchange => decide (∃ u ≠ t, (p.threads u).call.locking = true)
  | .intoInner .load => decide (∃ u ≠ t, (p.threads u).call.unsubtracted = true)
  | _ => false

/-- What a step adds to the outcome. -/
def note [DecidableEq Tid] (outcome : Outcome α) (p : Pool Tid (Shared α) (Thread α))
    (label : Label Tid (Choice α)) (p' : Pool Tid (Shared α) (Thread α)) : Outcome α where
  results := outcome.results ++ (p'.threads label.thread).returned
  destroyed := outcome.destroyed + if (p.threads label.thread).phase = .destroying then 1 else 0
  obstructed := outcome.obstructed || (obstructed p label.thread && undecided p == 1)

/-- The runs from a state, with their outcome. -/
def consumption [DecidableEq Tid] (p₀ : Pool Tid (Shared α) (Thread α)) :
    System (Pool Tid (Shared α) (Thread α) × Outcome α) (Label Tid (Choice α)) :=
  ((machine Tid α).system p₀).recording ⟨[], 0, false⟩ note

/-- A reached state with some `Arc` handles, no `Weak` and no call in progress. -/
structure OnlyArcs [DecidableEq Tid] (data : α) (p₀ : Pool Tid (Shared α) (Thread α)) : Prop where
  reachable : (system Tid data).Reachable p₀
  idle : ∀ t, (p₀.threads t).call = .idle
  weaks : p₀.shared.weaks = 0
  arcs : 0 < p₀.shared.arcs

omit [Fintype Tid] in
/-- All handles are consumed, and all calls have returned. -/
structure Consumed (p : Pool Tid (Shared α) (Thread α)) : Prop where
  arcs : p.shared.arcs = 0
  idle : ∀ t, (p.threads t).call = .idle

/-- There has been one call for each handle, exactly one of them has returned `Some`, with the
payload, and none has destroyed it. -/
structure YieldsOnce (p₀ : Pool Tid (Shared α) (Thread α)) (outcome : Outcome α) : Prop where
  calls : outcome.results.length = p₀.shared.arcs
  once : ∃ value, p₀.shared.data = some value ∧ outcome.results.reduceOption = [some value]
  destroyed : outcome.destroyed = 0

end Pool

/-- The runs that consume the two handles after one clone, each by the choices of a list. -/
theorem exists_consumption {P : Outcome ℕ → Prop} [DecidablePred P]
    (labels : List (Label (Fin 2) (Choice ℕ)))
    (h : ((system (Fin 2) 7).exec (fun _ _ ↦ True) (new (Fin 2) 7)
      [⟨0, .clone, none⟩, ⟨0, .access, none⟩]).any (fun p₀ ↦
        decide ((∀ t, (p₀.threads t).call = .idle) ∧ p₀.shared.weaks = 0 ∧ p₀.shared.arcs = 2 ∧
          ((consumption p₀).exec (fun _ label ↦ OnlyIntoInner label) (consumption p₀).init
            labels).any (fun x ↦ decide ((x.1.shared.arcs = 0 ∧
              ∀ t, (x.1.threads t).call = .idle) ∧ P x.2)) = true)) = true) :
    ∃ (p₀ : Pool (Fin 2) (Shared ℕ) (Thread ℕ))
      (x : Pool (Fin 2) (Shared ℕ) (Thread ℕ) × Outcome ℕ),
      OnlyArcs 7 p₀ ∧ p₀.shared.arcs = 2 ∧
        (consumption p₀).ReachableWhen (fun _ label ↦ OnlyIntoInner label) x ∧ Consumed x.1 ∧
          P x.2 := by
  obtain ⟨p₀, hrun, hidle, hweaks, harcs, hexec⟩ := System.exists_reachableWhen_of_exec _ _ h
  obtain ⟨x, hconsumed, ⟨hgone, hdone⟩, houtcome⟩ :=
    System.exists_reachableWhen_of_exec _ labels hexec
  have hpos : 0 < p₀.shared.arcs := by
    rw [harcs]
    exact Nat.two_pos
  exact ⟨p₀, x, ⟨hrun, hidle, hweaks, hpos⟩, harcs, hconsumed, ⟨hgone, hdone⟩, houtcome⟩

/-- Of two calls, the first locks `ref_count`, so that the second gives up; the first then gives up
too, because the second has not yet dropped its handle. -/
def collidingRun : List (Label (Fin 2) (Choice ℕ)) :=
  [⟨0, .intoInner, none⟩, ⟨1, .intoInner, none⟩, ⟨0, .access, none⟩, ⟨1, .access, none⟩] ++
    List.replicate 2 ⟨0, .access, none⟩ ++ [⟨1, .access, none⟩] ++
    List.replicate 4 ⟨0, .access, none⟩

/-- Both of two calls return `None`, and one of them destroys the payload. -/
theorem into_inner_returns_none_twice :
    ∃ (p₀ : Pool (Fin 2) (Shared ℕ) (Thread ℕ))
      (x : Pool (Fin 2) (Shared ℕ) (Thread ℕ) × Outcome ℕ),
      OnlyArcs 7 p₀ ∧ p₀.shared.arcs = 2 ∧
        (consumption p₀).ReachableWhen (fun _ label ↦ OnlyIntoInner label) x ∧ Consumed x.1 ∧
          (x.2.results = [none, none] ∧ x.2.destroyed = 1) ∧ ¬ YieldsOnce p₀ x.2 := by
  obtain ⟨p₀, x, h₀, harcs, hrun, hdone, houtcome⟩ := exists_consumption
    (P := fun outcome ↦ outcome.results = [none, none] ∧ outcome.destroyed = 1)
    collidingRun (by decide)
  exact ⟨p₀, x, h₀, harcs, hrun, hdone, houtcome, fun hyields ↦
    absurd (houtcome.2.symm.trans hyields.destroyed) Nat.one_ne_zero⟩

/-! ### One step -/

section Steps

variable {before after : Shared α} {th moved : Thread α} {choice : Choice α}

/-- What one step of a thread that consumes handles does: each handle goes on to a call and each
call to a result; the payload is moved out by the call that is to return it, or destroyed; a handle
is given up by a step that gives up, and by no other. -/
structure Turn (before : Shared α) (th : Thread α) (after : Shared α) (moved : Thread α) :
    Prop where
  calls : moved.call = .idle ∨ ∃ pc, moved.call = .intoInner pc
  handled : moved.returned.length + moved.call.consuming + after.arcs =
    th.call.consuming + before.arcs
  removed : after.removals + (if th.phase = .moving then 1 else 0) =
    before.removals + (if moved.phase = .moving then 1 else 0) +
      moved.returned.reduceOption.length + if th.phase = .destroying then 1 else 0
  chances : moved.call.undecided + (if moved.phase = .reading then 1 else 0) +
      (if moved.phase = .moving then 1 else 0) + moved.returned.reduceOption.length + after.arcs +
      (givesUp before th).toNat =
    th.call.undecided + (if th.phase = .reading then 1 else 0) +
      (if th.phase = .moving then 1 else 0) + before.arcs
  data : after.removals = 0 → before.removals = 0 ∧ after.data = before.data
  movedOut : ∀ data, moved.call = .intoInner (.free data) →
    th.phase = .reading ∧ data = before.data
  values : ∀ data ∈ moved.returned.reduceOption, th.call = .intoInner (.free data)
  weaks : after.weaks = before.weaks

@[simp] theorem returned_goto {pc : IntoInnerPc α} : (th.goto (.intoInner pc)).returned = [] := rfl

@[simp] theorem returned_ret {result : Option (ManuallyDrop α)} :
    (th.ret (.intoInner result)).returned = [result] := rfl

/-- A step in the drop of the handle that `into_inner` could not take. -/
theorem turn_of_drop {pc : DropArcPc} (hcall : th.call = .intoInner (.drop pc))
    (h : dropArcStep before th (fun pc ↦ .intoInner (.drop pc)) (.intoInner none) pc =
      (after, moved)) : Turn before th after moved := by
  have hphase := phase_of_call hcall
  rcases pc with _ | _ | (_ | _) <;> simp only [dropArcStep, dropWeakStep] at h
  all_goals try split_ifs at h
  all_goals
    obtain ⟨rfl, rfl⟩ := Prod.mk.inj h
    constructor
    all_goals
      simp [hcall, hphase, givesUp, Call.consuming, Call.undecided, Call.phase, DropArcPc.phase]

/-- A step inside `into_inner`. -/
theorem turn_of_intoInner {pc : IntoInnerPc α} (hcall : th.call = .intoInner pc)
    (h : intoInnerStep before th pc = (after, moved)) : Turn before th after moved := by
  have hphase := phase_of_call hcall
  cases pc with
  | drop pc => exact turn_of_drop hcall h
  | compareExchange =>
    simp only [intoInnerStep] at h
    split_ifs at h with hone
    all_goals
      obtain ⟨rfl, rfl⟩ := Prod.mk.inj h
      constructor
      all_goals
        simp [hcall, hphase, hone, givesUp, Call.consuming, Call.undecided, Call.phase,
          DropArcPc.phase, Nat.add_comm]
  | load =>
    obtain ⟨rfl, rfl⟩ := Prod.mk.inj h
    by_cases hone : before.strongCount = 1
    all_goals
      constructor
      all_goals
        simp [hcall, hphase, hone, givesUp, Call.consuming, Call.undecided, Call.phase,
          Nat.add_comm]
  | store | read | free data =>
    obtain ⟨rfl, rfl⟩ := Prod.mk.inj h
    constructor
    all_goals
      simp [hcall, hphase, givesUp, Call.consuming, Call.undecided, Call.phase, DropArcPc.phase]

/-- Every step of a thread that does nothing but consume handles is a turn. -/
theorem turn_of_step (h : step before th choice = some (after, moved))
    (hcalls : th.call = .idle ∨ ∃ pc, th.call = .intoInner pc)
    (honly : choice = .intoInner ∨ choice = .access) : Turn before th after moved := by
  unfold step at h
  split_ifs at h
  rcases hcalls with hcall | ⟨pc, hcall⟩
  · have hphase := phase_of_call hcall
    rcases honly with rfl | rfl
    · simp only [hcall, idleStep, Shared.hasFreeArc, decide_eq_true_eq,
        Option.ite_none_right_eq_some, Option.some.injEq, Prod.mk.injEq] at h
      obtain ⟨hfree, rfl, rfl⟩ := h
      have hpos : 0 < before.arcs := Nat.zero_lt_of_lt hfree
      constructor
      all_goals
        simp [hcall, hphase, givesUp, Call.consuming, Call.undecided, Call.phase]
        try omega
    · simp only [hcall, idleStep] at h
      cases h
  · rcases honly with rfl | rfl
    · simp only [hcall] at h
      cases h
    · simp only [hcall, Option.some.injEq] at h
      exact turn_of_intoInner hcall h

theorem phase_of_givesUp (h : givesUp before th = true) :
    th.phase = .dropping ∨ th.phase = .ownLocked := by
  unfold givesUp at h
  split at h
  case h_1 hcall => exact .inl (phase_of_call hcall)
  case h_2 hcall => exact .inr (phase_of_call hcall)
  case h_3 => cases h

end Steps

/-! ### What a call finds when it decides -/

section Positions

variable [Fintype Tid] {p : Pool Tid (Shared α) (Thread α)}

/-- No thread is in a phase that `into_inner` does not pass. -/
theorem threadsAt_eq_zero_of_calls {k : Phase}
    (hcalls : ∀ t, (p.threads t).call = .idle ∨ ∃ pc, (p.threads t).call = .intoInner pc)
    (hidle : k ≠ .idle) (hk : ∀ pc : IntoInnerPc α, (Call.intoInner pc).phase ≠ k) :
    threadsAt p k = 0 := by
  refine countAt_eq_zero_iff.mpr fun t ↦ ?_
  rcases hcalls t with hcall | ⟨pc, hcall⟩
  · rw [phase_of_call hcall]
    exact hidle.symm
  · rw [phase_of_call hcall]
    exact hk pc

theorem Call.locking_iff {call : Call α} : call.locking = true ↔
    call.phase = .ownLocked ∨ call.phase = .reading ∨ call.phase = .moving := by
  cases call with
  | clone pc => cases pc <;> simp [Call.locking, Call.phase]
  | getMut pc => rcases pc with _ | _ | (_ | _) | _ <;> simp [Call.locking, Call.phase]
  | intoInner pc =>
    rcases pc with _ | _ | _ | _ | _ | (_ | _ | (_ | _)) <;>
      simp [Call.locking, Call.phase, DropArcPc.phase]
  | dropArc pc =>
    rcases pc with _ | _ | (_ | _) <;> simp [Call.locking, Call.phase, DropArcPc.phase]
  | dropWeak pc => rcases pc with _ | _ <;> simp [Call.locking, Call.phase]
  | _ => simp [Call.locking, Call.phase]

theorem unsubtracted_iff {pc : IntoInnerPc α} : (Call.intoInner pc).unsubtracted = true ↔
    (Call.intoInner pc).phase = .dropping ∨ (Call.intoInner pc).locking = true := by
  rcases pc with _ | _ | _ | _ | _ | (_ | _ | (_ | _)) <;>
    simp [Call.unsubtracted, Call.locking, Call.phase, DropArcPc.phase]

/-- Some call holds the lock exactly if `ref_count` is locked. -/
theorem locks_pos_iff
    (hcalls : ∀ t, (p.threads t).call = .idle ∨ ∃ pc, (p.threads t).call = .intoInner pc) :
    0 < locks p ↔ ∃ u, (p.threads u).call.locking = true := by
  have hnone {k : Phase} (hidle : k ≠ .idle)
      (hk : ∀ pc : IntoInnerPc α, (Call.intoInner pc).phase ≠ k) :=
    threadsAt_eq_zero_of_calls hcalls hidle hk
  have hmutLocked := hnone (k := .mutLocked) Phase.noConfusion fun pc ↦ by
    rcases pc with _ | _ | _ | _ | _ | (_ | _ | (_ | _)) <;> exact Phase.noConfusion
  have hmutUnique := hnone (k := .mutUnique) Phase.noConfusion fun pc ↦ by
    rcases pc with _ | _ | _ | _ | _ | (_ | _ | (_ | _)) <;> exact Phase.noConfusion
  have hpos (k : Phase) : 0 < threadsAt p k ↔ ∃ u, (p.threads u).call.phase = k := countAt_pos_iff
  simp only [Call.locking_iff, exists_or, ← hpos]
  unfold locks
  omega

/-- At most one call holds the lock on `ref_count`. -/
theorem Counted.not_locking (hc : Counted p) {t u : Tid} (hne : t ≠ u)
    (ht : (p.threads t).phase = .ownLocked ∨ (p.threads t).phase = .reading ∨
      (p.threads t).phase = .moving) :
    ¬ ((p.threads u).phase = .ownLocked ∨ (p.threads u).phase = .reading ∨
      (p.threads u).phase = .moving) := by
  intro hu
  have hlocked := hc.locked
  unfold locks at hlocked
  rcases ht with ht | ht | ht <;> rcases hu with hu | hu | hu
  all_goals
    have hpos := threadsAt_pos ht
    have hpos' := threadsAt_pos hu
    have htwo (heq : (p.threads u).phase = (p.threads t).phase) := two_le_threadsAt hne rfl heq
    simp only [ht, hu, reduceCtorEq, false_implies, true_implies] at htwo
    omega

/-- A call before its `compare_exchange` finds another word than one exactly if some call holds the
lock, as there is no `Weak`. -/
theorem Counted.refCount_ne_one_iff (hc : Counted p) (hweaks : p.shared.weaks = 0)
    (hcalls : ∀ t, (p.threads t).call = .idle ∨ ∃ pc, (p.threads t).call = .intoInner pc) {t : Tid}
    (hphase : (p.threads t).phase = .dropping) :
    p.shared.refCount ≠ 1 ↔ ∃ u, (p.threads u).call.locking = true := by
  have hweak : threadsAt p .droppingWeak = 0 :=
    threadsAt_eq_zero_of_calls hcalls Phase.noConfusion fun pc ↦ by
      rcases pc with _ | _ | _ | _ | _ | (_ | _ | (_ | _)) <;> exact Phase.noConfusion
  have hmover := threadsAt_pos hphase
  have hlive : 0 < liveArcs p := by
    unfold liveArcs
    omega
  have hlocked := hc.locked
  have hrefs := hc.refs (hc.of_liveArcs_pos hlive).1
  rw [← locks_pos_iff hcalls]
  unfold liveWeaks implicitWeaks at hrefs
  rw [usizeMax_eq] at hlocked
  omega

/-- A call under the lock finds another `strong_count` than one exactly if some handle that has been
consumed is still counted, as all handles have been consumed. -/
theorem Counted.strongCount_ne_one_iff (hc : Counted p) (harcs : p.shared.arcs = 0)
    (hcalls : ∀ t, (p.threads t).call = .idle ∨ ∃ pc, (p.threads t).call = .intoInner pc) {t : Tid}
    (hphase : (p.threads t).phase = .ownLocked) :
    p.shared.strongCount ≠ 1 ↔ ∃ u, (p.threads u).phase = .dropping := by
  have haborting : threadsAt p .aborting = 0 :=
    threadsAt_eq_zero_of_calls hcalls Phase.noConfusion fun pc ↦ by
      rcases pc with _ | _ | _ | _ | _ | (_ | _ | (_ | _)) <;> exact Phase.noConfusion
  have hmover := threadsAt_pos hphase
  have hone : locks p = 1 := (hc.locked (by unfold locks; omega)).1
  have hlive : 0 < liveArcs p := by
    unfold liveArcs
    omega
  have hstrong := hc.strong (hc.of_liveArcs_pos hlive).1
  rw [← countAt_pos_iff, ← threadsAt]
  unfold liveArcs at hstrong
  unfold locks at hone
  omega

/-- Beside a call under the lock the other calls that are still counted are those that do not hold
the lock. -/
theorem Counted.dropping_iff_unsubtracted (hc : Counted p)
    (hcalls : ∀ t, (p.threads t).call = .idle ∨ ∃ pc, (p.threads t).call = .intoInner pc) {t : Tid}
    (hphase : (p.threads t).phase = .ownLocked) :
    (∃ u, (p.threads u).phase = .dropping) ↔
      ∃ u ≠ t, (p.threads u).call.unsubtracted = true := by
  constructor
  · rintro ⟨u, hu⟩
    refine ⟨u, fun heq ↦ ?_, ?_⟩
    · rw [heq, hphase] at hu
      cases hu
    · rcases hcalls u with hidle | ⟨pc, hother⟩
      · rw [phase_of_call hidle] at hu
        cases hu
      · rw [phase_of_call hother] at hu
        rw [hother]
        exact unsubtracted_iff.mpr (.inl hu)
  · rintro ⟨u, hne, hu⟩
    rcases hcalls u with hidle | ⟨pc, hother⟩
    · rw [hidle] at hu
      cases hu
    · rw [hother] at hu
      refine ⟨u, ?_⟩
      rcases unsubtracted_iff.mp hu with hdropping | hlocking
      · rw [phase_of_call hother, hdropping]
      · refine absurd (Call.locking_iff.mp hlocking) ?_
        rw [← phase_of_call hother]
        exact hc.not_locking hne.symm (.inl hphase)

/-- Under the invariant the positions of the other calls say what a call that is about to decide
finds, if there is no `Weak` and no other handle to decide about. -/
theorem givesUp_eq_obstructed [DecidableEq Tid] (hc : Counted p) (hweaks : p.shared.weaks = 0)
    (hcalls : ∀ t, (p.threads t).call = .idle ∨ ∃ pc, (p.threads t).call = .intoInner pc)
    (hlast : undecided p = 1) (t : Tid) :
    givesUp p.shared (p.threads t) = obstructed p t := by
  unfold givesUp obstructed
  split
  case h_1 hcall =>
    rw [decide_eq_decide, hc.refCount_ne_one_iff hweaks hcalls (phase_of_call hcall)]
    constructor
    · rintro ⟨u, hu⟩
      refine ⟨u, fun heq ↦ ?_, hu⟩
      rw [heq, hcall] at hu
      cases hu
    · rintro ⟨u, -, hu⟩
      exact ⟨u, hu⟩
  case h_2 hcall =>
    have harcs : p.shared.arcs = 0 := by
      have hself : 1 ≤ total (fun th ↦ th.call.undecided) p.threads := by
        have hle := le_total (fun th : Thread α ↦ th.call.undecided) p.threads t
        rw [hcall] at hle
        exact hle
      unfold undecided at hlast
      omega
    rw [decide_eq_decide, hc.strongCount_ne_one_iff harcs hcalls (phase_of_call hcall)]
    exact hc.dropping_iff_unsubtracted hcalls (phase_of_call hcall)
  case h_3 => rfl

end Positions

/-! ### Every run -/

section Runs

variable [DecidableEq Tid] [Fintype Tid] {data : α} {p₀ : Pool Tid (Shared α) (Thread α)}
  {x x' : Pool Tid (Shared α) (Thread α) × Outcome α} {label : Label Tid (Choice α)} {t : Tid}

/-- The calls that return `Some`, or have or will, and the handles that have not been given up. -/
def chances (x : Pool Tid (Shared α) (Thread α) × Outcome α) : ℕ :=
  undecided x.1 + threadsAt x.1 .reading + threadsAt x.1 .moving + x.2.results.reduceOption.length

/-- The invariant of the runs that consume the handles. -/
structure Tally (p₀ : Pool Tid (Shared α) (Thread α))
    (x : Pool Tid (Shared α) (Thread α) × Outcome α) : Prop where
  calls : ∀ t, (x.1.threads t).call = .idle ∨ ∃ pc, (x.1.threads t).call = .intoInner pc
  handled : x.2.results.length + consuming x.1 + x.1.shared.arcs = p₀.shared.arcs
  removed : x.1.shared.removals =
    threadsAt x.1 .moving + x.2.results.reduceOption.length + x.2.destroyed
  chances : x.2.obstructed = false ↔ 0 < chances x
  data : x.1.shared.removals = 0 → x.1.shared.data = p₀.shared.data
  movedOut : ∀ t data, (x.1.threads t).call = .intoInner (.free data) → data = p₀.shared.data
  values : ∀ data ∈ x.2.results.reduceOption, data = p₀.shared.data
  weaks : x.1.shared.weaks = 0

omit [DecidableEq Tid] in
/-- When a call gives up, no call has got the payload or is about to. -/
theorem chances_of_givesUp (hc : Counted x.1) (h : Tally p₀ x)
    (hgives : givesUp x.1.shared (x.1.threads t) = true) : chances x = undecided x.1 := by
  have hsole := hc.sole
  have hpayload := hc.payload.1
  have hremoved := h.removed
  unfold chances
  unfold liveArcs at hsole hpayload
  rcases phase_of_givesUp hgives with hphase | hphase
  all_goals
    have hmover := threadsAt_pos hphase
    omega

omit [DecidableEq Tid] in
/-- The payload is there for the call that has found its handle to be the only one. -/
theorem removals_of_reading (hc : Counted x.1) (hphase : (x.1.threads t).phase = .reading) :
    x.1.shared.removals = 0 := by
  have hmover := threadsAt_pos hphase
  have hsole := hc.sole (by omega)
  have hpayload := hc.payload.1
  unfold liveArcs at hsole hpayload
  omega

/-- Every step keeps the tally. -/
theorem tally_step (hc : Counted x.1) (h : Tally p₀ x) {moved : Thread α}
    (hturn : Turn x.1.shared (x.1.threads label.thread) x'.1.shared moved)
    (hthreads : x'.1.threads = update x.1.threads label.thread moved)
    (hnote : x'.2 = note x.2 x.1 label x'.1) : Tally p₀ x' := by
  have hresults : x'.2.results = x.2.results ++ moved.returned := by
    rw [hnote, note, hthreads, update_self]
  have hdestroyed : x'.2.destroyed = x.2.destroyed +
      if (x.1.threads label.thread).phase = .destroying then 1 else 0 := by rw [hnote, note]
  have hvalues : x'.2.results.reduceOption.length =
      x.2.results.reduceOption.length + moved.returned.reduceOption.length := by
    rw [hresults, List.reduceOption_append, List.length_append]
  have hmoves (w : Thread α → ℕ) : total w x'.1.threads + w (x.1.threads label.thread) =
      total w x.1.threads + w moved := by
    rw [hthreads]
    exact total_update w x.1.threads label.thread moved
  have hconsuming := hmoves fun th ↦ th.call.consuming
  have hundecided := hmoves fun th ↦ th.call.undecided
  have hreading := hmoves fun th ↦ if th.phase = .reading then 1 else 0
  have hmoving := hmoves fun th ↦ if th.phase = .moving then 1 else 0
  have hchances : chances x' + (givesUp x.1.shared (x.1.threads label.thread)).toNat =
      chances x := by
    have hstep := hturn.chances
    unfold chances undecided threadsAt countAt
    omega
  constructor
  case calls =>
    intro t
    rw [hthreads]
    by_cases hself : t = label.thread
    · rw [hself, update_self]
      exact hturn.calls
    · rw [update_of_ne hself]
      exact h.calls t
  case handled =>
    have hbefore := h.handled
    have hstep := hturn.handled
    rw [hresults, List.length_append]
    unfold consuming at hbefore ⊢
    omega
  case removed =>
    have hbefore := h.removed
    have hstep := hturn.removed
    unfold threadsAt countAt at hbefore ⊢
    omega
  case chances =>
    have hbefore := h.chances
    have hnoted : x'.2.obstructed = (x.2.obstructed ||
        (givesUp x.1.shared (x.1.threads label.thread) && undecided x.1 == 1)) := by
      rw [hnote, note]
      by_cases hlast : undecided x.1 = 1
      · rw [givesUp_eq_obstructed hc h.weaks h.calls hlast]
      · rw [beq_false_of_ne hlast, Bool.and_false, Bool.and_false]
    rw [hnoted, Bool.or_eq_false_iff, Bool.and_eq_false_iff, beq_eq_false_iff_ne, hbefore]
    cases hgives : givesUp x.1.shared (x.1.threads label.thread) with
    | false =>
      rw [hgives, Bool.toNat_false] at hchances
      simp [← hchances]
    | true =>
      rw [hgives, Bool.toNat_true] at hchances
      rw [← chances_of_givesUp hc h hgives]
      simp only [Bool.true_eq_false, false_or]
      omega
  case data =>
    intro hnone
    obtain ⟨hbefore, hsame⟩ := hturn.data hnone
    exact hsame.trans (h.data hbefore)
  case movedOut =>
    intro t data hcall
    rw [hthreads] at hcall
    by_cases hself : t = label.thread
    · rw [hself, update_self] at hcall
      obtain ⟨hphase, rfl⟩ := hturn.movedOut data hcall
      exact h.data (removals_of_reading hc hphase)
    · rw [update_of_ne hself] at hcall
      exact h.movedOut t data hcall
  case values =>
    intro data hdata
    rw [hresults, List.reduceOption_append, List.mem_append] at hdata
    rcases hdata with hbefore | hreturned
    · exact h.values data hbefore
    · exact h.movedOut _ data (hturn.values data hreturned)
  case weaks => exact hturn.weaks.trans h.weaks

omit [DecidableEq Tid] in
/-- Without a call in progress only the handles that no call has consumed count. -/
theorem totals_of_idle {p : Pool Tid (Shared α) (Thread α)}
    (hidle : ∀ t, (p.threads t).call = .idle) : consuming p = 0 ∧ undecided p = p.shared.arcs ∧
      ∀ k, k ≠ .idle → threadsAt p k = 0 := by
  refine ⟨?_, ?_, fun k hk ↦ ?_⟩
  · refine (total_eq_zero_iff _ _).mpr fun t ↦ ?_
    rw [hidle t]
    rfl
  · rw [undecided, (total_eq_zero_iff _ _).mpr, Nat.add_zero]
    intro t
    rw [hidle t]
    rfl
  · refine countAt_eq_zero_iff.mpr fun t ↦ ?_
    rw [phase_of_call (hidle t)]
    exact hk.symm

/-- The counters can be trusted while the handles are consumed. -/
theorem counted_of_calls (hrun : (system Tid data).Reachable x.1)
    (hcalls : ∀ t, (x.1.threads t).call = .idle ∨ ∃ pc, (x.1.threads t).call = .intoInner pc) :
    Counted x.1 := by
  refine (counted_of_quiet hrun fun t ↦ ?_).2
  rcases hcalls t with hcall | ⟨pc, hcall⟩
  · rw [phase_of_call hcall]
    exact Phase.noConfusion
  · rw [phase_of_call hcall]
    rcases pc with _ | _ | _ | _ | _ | (_ | _ | (_ | _)) <;> exact Phase.noConfusion

/-- The payload has not been removed from a block with handles and no call in progress. -/
theorem OnlyArcs.removals (h₀ : OnlyArcs data p₀) : p₀.shared.removals = 0 := by
  have hc : Counted p₀ := counted_of_calls (x := (p₀, ⟨[], 0, false⟩)) h₀.reachable
    fun t ↦ .inl (h₀.idle t)
  have harcs := h₀.arcs
  rw [hc.payload.1 (by unfold liveArcs; omega)]
  exact (totals_of_idle h₀.idle).2.2 .moving Phase.noConfusion

/-- The payload is there as long as it has not been destroyed or moved out. -/
theorem exists_data {p : Pool Tid (Shared α) (Thread α)} (h : (system Tid data).Reachable p)
    (hnone : p.shared.removals = 0) : ∃ value, p.shared.data = some value := by
  refine h.invariant
    (P := fun p ↦ p.shared.removals = 0 → ∃ value, p.shared.data = some value)
    (fun _ ↦ ⟨data, rfl⟩) ?_ hnone
  intro p label p' _ ih _ hmove hnone
  obtain ⟨moved, hstep, -⟩ := step_eq hmove
  obtain ⟨hbefore, hsame | hwritten⟩ := (step_event hstep).data hnone
  · rw [hsame]
    exact ih hbefore
  · exact hwritten

/-- The tally of a run that consumes the handles. -/
theorem tally (h₀ : OnlyArcs data p₀)
    (h : (consumption p₀).ReachableWhen (fun _ label ↦ OnlyIntoInner label) x) :
    (system Tid data).Reachable x.1 ∧ Tally p₀ x := by
  obtain ⟨hconsuming, hundecided, hphases⟩ := totals_of_idle h₀.idle
  refine h.invariant (P := fun x ↦ (system Tid data).Reachable x.1 ∧ Tally p₀ x)
    ⟨h₀.reachable, ?_⟩ ?_
  · constructor
    case calls => exact fun t ↦ .inl (h₀.idle t)
    case handled =>
      show 0 + consuming p₀ + p₀.shared.arcs = p₀.shared.arcs
      rw [hconsuming, Nat.zero_add]
    case removed =>
      show p₀.shared.removals = threadsAt p₀ .moving + 0 + 0
      rw [h₀.removals, hphases .moving Phase.noConfusion]
    case chances =>
      show false = false ↔ 0 < undecided p₀ + threadsAt p₀ .reading + threadsAt p₀ .moving + 0
      have harcs := h₀.arcs
      rw [← hundecided] at harcs
      exact ⟨fun _ ↦ by omega, fun _ ↦ rfl⟩
    case data => exact fun _ ↦ rfl
    case movedOut =>
      intro t data hcall
      cases (h₀.idle t).symm.trans hcall
    case values => exact fun _ hnone ↦ absurd hnone List.not_mem_nil
    case weaks => exact h₀.weaks
  · rintro x label x' - ⟨hrun, htally⟩ honly hmove
    obtain ⟨hmoved, hnote⟩ := System.recording_step hmove
    have hstep : (system Tid data).step x.1 label = some x'.1 := hmoved
    obtain ⟨moved, hlocal, hthreads⟩ := step_eq hstep
    have hturn := turn_of_step hlocal (htally.calls label.thread) honly
    exact ⟨.step hrun trivial hstep,
      tally_step (counted_of_calls hrun htally.calls) htally hturn hthreads hnote⟩

/-- If all handles of a block without a `Weak` are consumed by `into_inner`, exactly one call
returns `Some` and the payload is not destroyed if and only if the last call to decide has not been
obstructed by another one. -/
theorem into_inner_yields_once (h₀ : OnlyArcs data p₀)
    (h : (consumption p₀).ReachableWhen (fun _ label ↦ OnlyIntoInner label) x)
    (hdone : Consumed x.1) : YieldsOnce p₀ x.2 ↔ x.2.obstructed = false := by
  obtain ⟨hrun, htally⟩ := tally h₀ h
  obtain ⟨hconsuming, hundecided, hphases⟩ := totals_of_idle hdone.idle
  have hpayload : x.1.shared.removals + threadsAt x.1 .destroying = 1 := by
    refine (counted_of_calls hrun htally.calls).payload.2 ?_
    rw [liveArcs, hdone.arcs, hphases .dropping Phase.noConfusion,
      hphases .ownLocked Phase.noConfusion, hphases .reading Phase.noConfusion,
      hphases .moving Phase.noConfusion]
  have hremoved := htally.removed
  rw [htally.chances, chances, hundecided, hdone.arcs, hphases .reading Phase.noConfusion,
    hphases .moving Phase.noConfusion]
  rw [hphases .destroying Phase.noConfusion] at hpayload
  rw [hphases .moving Phase.noConfusion] at hremoved
  constructor
  · rintro ⟨-, ⟨value, -, hvalues⟩, -⟩
    rw [hvalues]
    exact Nat.one_pos
  · intro hsome
    have hone : x.2.results.reduceOption.length = 1 := by omega
    obtain ⟨value, hvalue⟩ := exists_data h₀.reachable h₀.removals
    obtain ⟨returned, hreturned⟩ := List.length_eq_one_iff.mp hone
    have hsame : returned = p₀.shared.data :=
      htally.values returned (hreturned ▸ List.mem_singleton_self returned)
    have hhandled := htally.handled
    rw [hconsuming, hdone.arcs] at hhandled
    exact ⟨hhandled, ⟨value, hvalue, by rw [hreturned, hsame, hvalue]⟩, by omega⟩

/-- `into_inner_yields_once` on a run in which the first of two calls gives up and drops its handle
before the second reads `strong_count`. -/
theorem into_inner_yields_once_two_calls :
    ∃ (p₀ : Pool (Fin 2) (Shared ℕ) (Thread ℕ))
      (x : Pool (Fin 2) (Shared ℕ) (Thread ℕ) × Outcome ℕ),
      p₀.shared.arcs = 2 ∧ x.2.results = [none, some (some 7)] ∧ YieldsOnce p₀ x.2 := by
  obtain ⟨p₀, x, h₀, harcs, hrun, hdone, hkept, hresults⟩ := exists_consumption
    (P := fun outcome ↦ outcome.obstructed = false ∧ outcome.results = [none, some (some 7)])
    ([⟨0, .intoInner, none⟩, ⟨1, .intoInner, none⟩] ++ List.replicate 4 ⟨0, .access, none⟩ ++
      List.replicate 4 ⟨1, .access, none⟩) (by decide)
  exact ⟨p₀, x, harcs, hresults, (into_inner_yields_once h₀ hrun hdone).mpr hkept⟩

end Runs

end SyncPrimitives.Arc
