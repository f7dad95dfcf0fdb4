import SyncPrimitives.Concurrency.Moments
import SyncPrimitives.RingBuffer.Indices

/-!
# Refusals of the ring buffer

`push` and `try_push` should return `Err` only if the buffer was full at some moment of the call,
`pop` and `try_pop` should return `None` only if it was empty. `watched` records for every thread
whether the buffer has been full or empty since its current call began. `false_full` is a run in
which a push loads `tail`, the receiver pops a value and another push takes its place before the
first one loads `head`: it is refused although one of two slots has been free all the time.

`full_empty_truthful` shows that with one receiver and any number of senders the answers are
truthful in every run under `TruthCondition`: no push is refused on a `tail` that has moved since it
was loaded, and the single compare-and-exchange of `try_push` and `try_pop` does not fail.
-/

set_option autoImplicit false
set_option relaxedAutoImplicit false

namespace SyncPrimitives.RingBuffer

open Concurrency Function

variable {Tid α : Type}

/-! ### What a call answers, and what it has seen -/

/-- Whether an access returns `Err`. -/
def Progress.isErr {Pc Ret : Type} : Progress Pc (Except α Ret) → Bool
  | .returned (.error _) => true
  | _ => false

/-- Whether an access returns `None`. -/
def Progress.isNone {Pc Ret : Type} : Progress Pc (Option Ret) → Bool
  | .returned none => true
  | _ => false

/-- Whether a step returns `Err` from `push` or `try_push`. -/
def Call.refused (N : ℕ) (s : Shared α) : Call α → Choice α → Bool
  | .push pc, .access access => (pushStep N s pc access).any (·.2.isErr)
  | .tryPush pc, .access access => (tryPushStep N s pc access).any (·.2.isErr)
  | _, _ => false

/-- Whether a step returns `None` from `pop` or `try_pop`. -/
def Call.foundNothing (N : ℕ) (s : Shared α) : Call α → Choice α → Bool
  | .pop pc, .access access => (popStep N s pc access).any (·.2.isNone)
  | .tryPop pc, .access access => (tryPopStep N s pc access).any (·.2.isNone)
  | _, _ => false

/-- Whether a thread is inside a call. -/
def Call.inCall : Call α → Bool
  | .idle => false
  | _ => true

/-- What can be so of a buffer at a moment. -/
inductive Occupancy
  | full
  | empty
  deriving DecidableEq

/-- `head - tail` is `N`, or `head` is `tail`. -/
def Occupancy.now (N : ℕ) (p : Pool Tid (Shared α) (Call α)) : Occupancy → Bool
  | .full => subUsize p.shared.head p.shared.tail = N
  | .empty => p.shared.head = p.shared.tail

/-- The threads of a ring buffer, with what the buffer has been during the current calls. -/
def watched (N : ℕ) (Tid α : Type) [DecidableEq Tid] [Fintype Tid] :
    System (Pool Tid (Shared α) (Call α) × (Occupancy → Tid → Bool)) (Label Tid (Choice α)) :=
  (system N Tid α).watching Call.inCall fun occupancy p ↦ occupancy.now N p

/-- Thread 2 loads `tail` in `push`; thread 0 pushes, thread 1 pops and thread 0 pushes again;
thread 2 loads `head`. -/
def falseFullRun : List (Label (Fin 3) (Choice ℕ)) :=
  [⟨2, .call (.push 9), none⟩, ⟨2, .access .go, none⟩,
    ⟨0, .call (.push 7), none⟩, ⟨0, .access .go, none⟩, ⟨0, .access .go, none⟩,
    ⟨0, .access .go, none⟩, ⟨0, .access .go, none⟩,
    ⟨1, .call .pop, none⟩, ⟨1, .access .go, none⟩, ⟨1, .access .go, none⟩,
    ⟨1, .access .go, none⟩, ⟨1, .access .go, none⟩,
    ⟨0, .call (.push 8), none⟩, ⟨0, .access .go, none⟩, ⟨0, .access .go, none⟩,
    ⟨0, .access .go, none⟩, ⟨0, .access .go, none⟩]

/-- With one receiver, a push is refused by a buffer that has not been full during the call. -/
theorem false_full : ∃ x : Pool (Fin 3) (Shared ℕ) (Call ℕ) × (Occupancy → Fin 3 → Bool),
    (watched 2 (Fin 3) ℕ).ReachableWhen
        (fun _ label ↦ label.choice.startsPop → label.thread = 1) x ∧
      (x.1.threads 2).refused 2 x.1.shared (.access .go) ∧ x.2 .full 2 = false :=
  System.exists_reachableWhen_of_exec (M := watched 2 (Fin 3) ℕ)
    (fun _ label ↦ label.choice.startsPop → label.thread = 1)
    (P := fun x ↦ (x.1.threads 2).refused 2 x.1.shared (.access .go) ∧ x.2 .full 2 = false)
    falseFullRun (by decide)

/-! ### Runs in which the answers are truthful -/

/-- Whether a push is about to be refused on a `tail` that has moved since it was loaded. -/
def PushPc.misled (N : ℕ) (s : Shared α) : PushPc α → Bool
  | .loadHead _ currentTail => N ≤ subUsize s.head currentTail && s.tail ≠ currentTail
  | _ => false

/-- Whether the compare-and-exchange of a push fails. -/
def PushPc.beaten (s : Shared α) : PushPc α → Access → Bool
  | .compareExchange _ currentHead, .go => s.head ≠ currentHead
  | .compareExchange _ _, .spurious => true
  | _, _ => false

/-- Whether the compare-and-exchange of a pop fails. -/
def PopPc.beaten (s : Shared α) : PopPc α → Access → Bool
  | .compareExchange currentTail _, .go => s.tail ≠ currentTail
  | .compareExchange _ _, .spurious => true
  | _, _ => false

/-- Whether a push is about to be refused on an old `tail`. -/
def Call.misled (N : ℕ) (s : Shared α) : Call α → Bool
  | .push pc => pc.misled N s
  | .tryPush pc => pc.misled N s
  | _ => false

/-- Whether a call that makes one attempt is about to give up. -/
def Call.givesUp (s : Shared α) : Call α → Choice α → Bool
  | .tryPush pc, .access access => pc.beaten s access
  | .tryPop pc, .access access => pc.beaten s access
  | _, _ => false

/-- The condition on a step of a run with one receiver: the condition on the indices, no push is
refused on a `tail` that has moved since it was loaded, and neither `try_push` nor `try_pop` gives
up because its compare-and-exchange fails. -/
structure TruthCondition (N : ℕ) (p : Pool Tid (Shared α) (Call α))
    (label : Label Tid (Choice α)) : Prop extends IndexCondition N p label where
  notMisled : (p.threads label.thread).misled N p.shared = false
  notGivingUp : (p.threads label.thread).givesUp p.shared label.choice = false

instance [DecidableEq Tid] [Fintype Tid] (N : ℕ) (p : Pool Tid (Shared α) (Call α))
    (label : Label Tid (Choice α)) : Decidable (TruthCondition N p label) :=
  decidable_of_iff
    (IndexCondition N p label ∧ (p.threads label.thread).misled N p.shared = false ∧
      (p.threads label.thread).givesUp p.shared label.choice = false)
    ⟨fun ⟨h₁, h₂, h₃⟩ ↦ ⟨h₁, h₂, h₃⟩, fun h ↦ ⟨h.toIndexCondition, h.notMisled, h.notGivingUp⟩⟩

section Answers

variable {N : ℕ} {s : Shared α} {f : Tid → Call α} {access : Access} {retry : Bool}

/-- A push is refused on the `head` it loads, or because its compare-and-exchange fails. -/
theorem pushWith_refused {pc : PushPc α}
    (h : (pushWith N s retry pc access).any (·.2.isErr) = true) :
    (∃ value currentTail, pc = .loadHead value currentTail ∧ N ≤ subUsize s.head currentTail) ∨
      retry = false ∧ pc.beaten s access = true := by
  have hfailed (value : α) (h : (pushWith.failed retry value).isErr = true) : retry = false := by
    unfold pushWith.failed at h
    split_ifs at h with hretry
    · cases h
    · exact Bool.eq_false_iff.mpr hretry
  cases pc <;> cases access <;> simp only [pushWith, Option.any_none, Bool.false_eq_true] at h
  case loadTail.go => cases h
  case loadHead.go value currentTail =>
    split_ifs at h with hfull
    · exact .inl ⟨value, currentTail, rfl, hfull⟩
    · cases h
  case compareExchange.go value currentHead =>
    split_ifs at h with hsame
    · cases h
    · exact .inr ⟨hfailed value h, decide_eq_true hsame⟩
  case compareExchange.spurious value currentHead => exact .inr ⟨hfailed value h, rfl⟩
  case write.go => cases h

/-- A pop finds nothing in the `head` it loads, or because its compare-and-exchange fails. -/
theorem popWith_foundNothing {slot : ℕ → ℕ} {pc : PopPc α}
    (h : (popWith s slot retry pc access).any (·.2.isNone) = true) :
    pc = .loadHead s.head ∨ retry = false ∧ pc.beaten s access = true := by
  obtain ⟨⟨s', progress⟩, hpop, hnone⟩ := (Option.any_eq_true _ _).mp h
  cases popWith_effect hpop with
  | fail hfailure =>
    cases hfailure with
    | empty => exact .inl rfl
    | contended hretry hfailed =>
      refine .inr ⟨hretry, ?_⟩
      cases access with
      | go => exact decide_eq_true (hfailed.resolve_left nofun)
      | spurious => rfl
  | _ => cases hnone

/-- A push that is refused on a `tail` that has not moved finds the buffer full. -/
theorem Bounded.full_of_used (hN : N < 2 ^ 64) (h : Bounded N s f)
    (hfull : N ≤ subUsize s.head s.tail) : subUsize s.head s.tail = N := by
  have hle := h.le
  have hroom := h.room
  rw [h.head, h.tail] at hfull ⊢
  unfold subUsize at hfull ⊢
  omega

variable [DecidableEq Tid] [Fintype Tid]

variable {x : Pool Tid (Shared α) (Call α) × (Occupancy → Tid → Bool)}
  {label : Label Tid (Choice α)}

/-- A push is refused only if the buffer has been full at some moment of the call. -/
theorem full_of_refused (hN : N < 2 ^ 64)
    (h : (watched N Tid α).ReachableWhen (fun x label ↦ TruthCondition N x.1 label) x)
    (hmeets : TruthCondition N x.1 label)
    (hrefused : (x.1.threads label.thread).refused N x.1.shared label.choice = true) :
    x.2 .full label.thread = true := by
  have hb : Bounded N x.1.shared x.1.threads :=
    bounded hN (fun _ _ h ↦ h.toIndexCondition) h.of_watching
  have hmisled := hmeets.notMisled
  have hgivesUp := hmeets.notGivingUp
  have hloaded (value : α) (currentTail : ℕ)
      (hmisled : PushPc.misled N x.1.shared (.loadHead value currentTail) = false)
      (hused : N ≤ subUsize x.1.shared.head currentTail) : x.2 .full label.thread = true := by
    have htail : x.1.shared.tail = currentTail := by simpa [PushPc.misled, hused] using hmisled
    subst htail
    exact h.seen_of_now (decide_eq_true (hb.full_of_used hN hused))
  unfold Call.refused at hrefused
  split at hrefused
  case h_1 pc access hcall hchoice =>
    rw [hcall] at hmisled
    rcases pushWith_refused hrefused with ⟨value, currentTail, rfl, hused⟩ | ⟨hretry, -⟩
    · exact hloaded value currentTail hmisled hused
    · cases hretry
  case h_2 pc access hcall hchoice =>
    rw [hcall] at hmisled hgivesUp
    rw [hchoice] at hgivesUp
    rcases pushWith_refused hrefused with ⟨value, currentTail, rfl, hused⟩ | ⟨-, hbeaten⟩
    · exact hloaded value currentTail hmisled hused
    · cases hbeaten.symm.trans hgivesUp
  case h_3 => cases hrefused

/-- A pop finds nothing only if the buffer has been empty at some moment of the call. -/
theorem empty_of_foundNothing (hN : N < 2 ^ 64)
    (h : (watched N Tid α).ReachableWhen (fun x label ↦ TruthCondition N x.1 label) x)
    (hmeets : TruthCondition N x.1 label)
    (hnothing : (x.1.threads label.thread).foundNothing N x.1.shared label.choice = true) :
    x.2 .empty label.thread = true := by
  have hb : Bounded N x.1.shared x.1.threads :=
    bounded hN (fun _ _ h ↦ h.toIndexCondition) h.of_watching
  have hgivesUp := hmeets.notGivingUp
  have hbound := hb.bound label.thread
  unfold Call.foundNothing at hnothing
  split at hnothing
  case h_1 pc access hcall hchoice =>
    rw [hcall] at hbound
    rcases popWith_foundNothing hnothing with rfl | ⟨hretry, -⟩
    · exact h.seen_of_now (decide_eq_true hbound)
    · cases hretry
  case h_2 pc access hcall hchoice =>
    rw [hcall] at hgivesUp hbound
    rw [hchoice] at hgivesUp
    rcases popWith_foundNothing hnothing with rfl | ⟨-, hbeaten⟩
    · exact h.seen_of_now (decide_eq_true hbound)
    · cases hbeaten.symm.trans hgivesUp
  case h_3 => cases hnothing

/-- In every run under the condition the answers are truthful: a push is refused only if the buffer
has been full at some moment of the call, and a pop finds nothing only if it has been empty. -/
theorem full_empty_truthful (hN : N < 2 ^ 64)
    (h : (watched N Tid α).ReachableWhen (fun x label ↦ TruthCondition N x.1 label) x)
    (hmeets : TruthCondition N x.1 label) :
    ((x.1.threads label.thread).refused N x.1.shared label.choice →
        x.2 .full label.thread = true) ∧
      ((x.1.threads label.thread).foundNothing N x.1.shared label.choice →
        x.2 .empty label.thread = true) :=
  ⟨full_of_refused hN h hmeets, empty_of_foundNothing hN h hmeets⟩

/-- `full_empty_truthful` with two slots. After a run in which a popped value has made room for a
third one, thread 2 is about to be refused; and after a run in which the only value has been popped,
the receiver is about to find nothing. -/
theorem full_empty_truthful_two_slots :
    (∃ x : Pool (Fin 3) (Shared ℕ) (Call ℕ) × (Occupancy → Fin 3 → Bool),
      (x.1.shared.popped = [(0, some 7)] ∧
        (x.1.threads 2).refused 2 x.1.shared (.access .go) = true) ∧
      ((x.1.threads 2).refused 2 x.1.shared (.access .go) → x.2 .full 2 = true) ∧
        ((x.1.threads 2).foundNothing 2 x.1.shared (.access .go) → x.2 .empty 2 = true)) ∧
      ∃ x : Pool (Fin 3) (Shared ℕ) (Call ℕ) × (Occupancy → Fin 3 → Bool),
        (x.1.shared.popped = [(0, some 7)] ∧
          (x.1.threads 1).foundNothing 2 x.1.shared (.access .go) = true) ∧
        ((x.1.threads 1).refused 2 x.1.shared (.access .go) → x.2 .full 1 = true) ∧
          ((x.1.threads 1).foundNothing 2 x.1.shared (.access .go) → x.2 .empty 1 = true) := by
  obtain ⟨x, hrun, hx, hmeets⟩ := System.exists_reachableWhen_of_exec
    (M := watched 2 (Fin 3) ℕ) (fun x label ↦ TruthCondition 2 x.1 label)
    (P := fun x ↦ (x.1.shared.popped = [(0, some 7)] ∧
        (x.1.threads 2).refused 2 x.1.shared (.access .go) = true) ∧
      TruthCondition 2 x.1 ⟨2, .access .go, none⟩)
    ([⟨0, .call (.push 7), none⟩] ++ List.replicate 4 ⟨0, .access .go, none⟩ ++
      [⟨0, .call (.push 8), none⟩] ++ List.replicate 4 ⟨0, .access .go, none⟩ ++
      [⟨1, .call .pop, none⟩] ++ List.replicate 4 ⟨1, .access .go, none⟩ ++
      [⟨2, .call (.tryPush 5), none⟩] ++ [⟨0, .call (.push 9), none⟩] ++
      List.replicate 4 ⟨0, .access .go, none⟩ ++ [⟨2, .access .go, none⟩]) (by decide)
  obtain ⟨y, hrun', hy, hmeets'⟩ := System.exists_reachableWhen_of_exec
    (M := watched 2 (Fin 3) ℕ) (fun x label ↦ TruthCondition 2 x.1 label)
    (P := fun y ↦ (y.1.shared.popped = [(0, some 7)] ∧
        (y.1.threads 1).foundNothing 2 y.1.shared (.access .go) = true) ∧
      TruthCondition 2 y.1 ⟨1, .access .go, none⟩)
    ([⟨0, .call (.push 7), none⟩] ++ List.replicate 4 ⟨0, .access .go, none⟩ ++
      [⟨1, .call .tryPop, none⟩] ++ List.replicate 4 ⟨1, .access .go, none⟩ ++
      [⟨1, .call .pop, none⟩, ⟨0, .call (.push 8), none⟩, ⟨0, .access .go, none⟩,
        ⟨1, .access .go, none⟩]) (by decide)
  exact ⟨⟨x, hx, full_empty_truthful (by decide) hrun hmeets⟩, y, hy,
    full_empty_truthful (by decide) hrun' hmeets'⟩

end Answers

end SyncPrimitives.RingBuffer
