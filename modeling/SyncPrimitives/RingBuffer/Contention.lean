import SyncPrimitives.RingBuffer.Indices
import Mathlib.Data.List.Basic

/-!
# The indices under contention

Any number of threads push and pop at the same time. The index that a thread has loaded may be old
when it is used: the fullness test compares a `head` with an earlier `tail`, the emptiness test a
`tail` with a later `head`, and the compare-and-exchange on one index says nothing about the other.

As long as fewer than `2 ^ 64` positions have been claimed no index wraps around, so both only grow,
and what a thread has read off an old index (`Call.Cached`) stays true. `Contended` adds to it that
the claims and the pops have taken the positions in order; every step keeps it, and `index_bounds`
collects what follows.
-/

set_option autoImplicit false
set_option relaxedAutoImplicit false

namespace SyncPrimitives.RingBuffer

open Concurrency Function

variable {Tid α : Type}

/-! ### What a thread knows from an old index -/

/-- What a position inside `push` or `try_push` knows. -/
def PushPc.Cached (N : ℕ) (s : Shared α) : PushPc α → Prop
  | .loadHead _ currentTail => currentTail ≤ s.tail
  | .compareExchange _ currentHead => currentHead < s.tail + N
  | _ => True

/-- What a position inside `pop` or `try_pop` knows. -/
def PopPc.Cached (s : Shared α) : PopPc α → Prop
  | .loadTail => True
  | .loadHead currentTail => currentTail ≤ s.tail
  | .read currentTail => currentTail < s.head
  | .compareExchange currentTail _ => currentTail < s.head

/-- What a position knows from the indices it has loaded. -/
def Call.Cached (N : ℕ) (s : Shared α) : Call α → Prop
  | .idle => True
  | .push pc => pc.Cached N s
  | .tryPush pc => pc.Cached N s
  | .pop pc => pc.Cached s
  | .tryPop pc => pc.Cached s

/-- The words are the numbers of claims and pops, which have taken the positions in order, and the
pops are at most `N` behind the claims. -/
structure Ordered (N : ℕ) (s : Shared α) : Prop where
  head : s.head = s.claimed.length
  tail : s.tail = s.popped.length
  claimed : s.claimed.map Prod.fst = List.range s.claimed.length
  popped : s.popped.map Prod.fst = List.range s.popped.length
  le : s.tail ≤ s.head
  room : s.head ≤ s.tail + N

/-- The indices are in order, and every thread knows what its position says. -/
structure Contended (N : ℕ) (s : Shared α) (f : Tid → Call α) : Prop extends Ordered N s where
  cached : ∀ u, (f u).Cached N s

section Events

variable {N : ℕ} {s s' : Shared α} {call : Call α}

/-- What a thread knows stays true while the indices grow. -/
theorem Call.Cached.mono (htail : s.tail ≤ s'.tail) (hhead : s.head ≤ s'.head)
    (h : call.Cached N s) : call.Cached N s' := by
  have hpush (pc : PushPc α) (hpc : pc.Cached N s) : pc.Cached N s' := by
    cases pc with
    | loadHead value currentTail => exact hpc.trans htail
    | compareExchange value currentHead => exact hpc.trans_le (Nat.add_le_add_right htail N)
    | _ => trivial
  have hpop (pc : PopPc α) (hpc : pc.Cached s) : pc.Cached s' := by
    cases pc with
    | loadTail => trivial
    | loadHead currentTail => exact hpc.trans htail
    | read currentTail => exact hpc.trans_le hhead
    | compareExchange currentTail value => exact hpc.trans_le hhead
  cases call with
  | idle => trivial
  | push pc => exact hpush pc h
  | tryPush pc => exact hpush pc h
  | pop pc => exact hpop pc h
  | tryPop pc => exact hpop pc h

/-- A claim takes the next position. -/
theorem Ordered.claim {value : α} (h : Ordered N s) (hroom : s.head < s.tail + N)
    (hfew : s.claimed.length + 1 < 2 ^ 64) : Ordered N (s.claim value) := by
  have hhead : (s.claim value).head = s.head + 1 := addUsize_of_lt (by rw [h.head]; exact hfew)
  refine { h with head := ?head, claimed := ?claimed, le := ?le, room := ?room }
  case head => rw [hhead, h.head, length_claimed_claim]
  case claimed =>
    rw [length_claimed_claim, List.range_succ, ← h.claimed, ← h.head]
    simp [Shared.claim]
  case le =>
    rw [hhead]
    exact h.le.trans (Nat.le_succ _)
  case room =>
    rw [hhead]
    exact hroom

/-- A successful pop takes the next position. -/
theorem Ordered.release {value : MaybeUninit α} (h : Ordered N s) (hlt : s.tail < s.head)
    (hfew : s.claimed.length < 2 ^ 64) : Ordered N (s.release value) := by
  have htail : (s.release value).tail = s.tail + 1 := by
    refine addUsize_of_lt ?_
    rw [h.head] at hlt
    omega
  refine { h with tail := ?tail, popped := ?popped, le := ?le, room := ?room }
  case tail => rw [htail, h.tail, length_popped_release]
  case popped =>
    rw [length_popped_release, List.range_succ, ← h.popped, ← h.tail]
    simp [Shared.release]
  case le =>
    rw [htail]
    exact hlt
  case room =>
    rw [htail]
    exact h.room.trans (by omega)

variable [DecidableEq Tid] {t : Tid} {f : Tid → Call α} {moved : Call α}

/-- A step of one thread keeps the invariant. Assumes: the indices are in order after it and have
not gone back, and the thread knows what its new position says. -/
theorem Contended.step (h : Contended N s f) (hordered : Ordered N s') (htail : s.tail ≤ s'.tail)
    (hhead : s.head ≤ s'.head) (hmoved : moved.Cached N s') :
    Contended N s' (update f t moved) where
  toOrdered := hordered
  cached := fun u ↦ by
    by_cases hu : u = t
    · rw [hu, update_self]
      exact hmoved
    · rw [update_of_ne hu]
      exact (h.cached u).mono htail hhead

/-- A step that leaves the indices keeps the invariant. -/
theorem Contended.quiet (h : Contended N s f) (hmoved : moved.Cached N s) :
    Contended N s (update f t moved) :=
  h.step h.toOrdered le_rfl le_rfl hmoved

/-- A step of `push` or `try_push` keeps the invariant. Assumes: fewer than `2 ^ 64` positions have
been claimed after it. -/
theorem contended_of_pushWith {position : PushPc α → Call α}
    (hposition : position = .push ∨ position = .tryPush) {retry : Bool} {pc : PushPc α}
    {access : Access} {progress : Progress (PushPc α) (Except α Unit)} (h : Contended N s f)
    (hcall : f t = position pc) (hfew : s'.claimed.length < 2 ^ 64)
    (hstep : pushWith N s retry pc access = some (s', progress)) :
    Contended N s' (update f t (progress.call position)) := by
  have hcached (s : Shared α) (pc : PushPc α) : (position pc).Cached N s ↔ pc.Cached N s := by
    rcases hposition with rfl | rfl <;> rfl
  have hpc : pc.Cached N s := (hcached s pc).mp (hcall ▸ h.cached t)
  have hquiet (pc' : PushPc α) (hpc' : pc'.Cached N s) :
      Contended N s (update f t (position pc')) :=
    h.quiet ((hcached s pc').mpr hpc')
  have hreturn : Contended N s (update f t .idle) := h.quiet trivial
  have hfailed (value : α) :
      Contended N s (update f t ((pushWith.failed retry value).call position)) := by
    unfold pushWith.failed
    split_ifs
    · exact hquiet _ trivial
    · exact hreturn
  cases pc <;> cases access <;> simp only [pushWith, reduceCtorEq] at hstep
  case loadTail.go value =>
    obtain ⟨rfl, rfl⟩ := by simpa using hstep
    exact hquiet (.loadHead value s.tail) le_rfl
  case loadHead.go value currentTail =>
    split_ifs at hstep with hfull
    all_goals obtain ⟨rfl, rfl⟩ := by simpa using hstep
    · exact hreturn
    · -- the old tail is not ahead of the head, so the word `used_slots` is the difference
      have hbehind : currentTail ≤ s.tail := hpc
      have hle := h.le
      rw [subUsize_of_le (hbehind.trans hle) (h.head ▸ hfew)] at hfull
      exact hquiet (.compareExchange value s.head) (show s.head < s.tail + N by omega)
  case compareExchange.go value currentHead =>
    split_ifs at hstep with hsame
    all_goals obtain ⟨rfl, rfl⟩ := by simpa using hstep
    · subst hsame
      have hclaimed : s.claimed.length + 1 < 2 ^ 64 := by simpa using hfew
      have hordered : Ordered N (s.claim value) := h.toOrdered.claim hpc hclaimed
      have hgrown : s.head ≤ (s.claim value).head := by
        rw [hordered.head, h.head, length_claimed_claim]
        exact Nat.le_succ _
      exact h.step hordered le_rfl hgrown ((hcached _ _).mpr trivial)
    · exact hfailed value
  case compareExchange.spurious value currentHead =>
    obtain ⟨rfl, rfl⟩ := by simpa using hstep
    exact hfailed value
  case write.go value currentHead claim =>
    obtain ⟨rfl, rfl⟩ := by simpa using hstep
    have hordered : Ordered N (s.write N value currentHead claim) := { h.toOrdered with }
    exact h.step hordered le_rfl le_rfl trivial

/-- A step of `pop` or `try_pop` keeps the invariant. -/
theorem contended_of_popWith {position : PopPc α → Call α}
    (hposition : position = .pop ∨ position = .tryPop) {slot : ℕ → ℕ} {retry : Bool} {pc : PopPc α}
    {access : Access} {progress : Progress (PopPc α) (Option (MaybeUninit α))}
    (h : Contended N s f) (hcall : f t = position pc) (hfew : s'.claimed.length < 2 ^ 64)
    (hstep : popWith s slot retry pc access = some (s', progress)) :
    Contended N s' (update f t (progress.call position)) := by
  have hcached (s : Shared α) (pc : PopPc α) : (position pc).Cached N s ↔ pc.Cached s := by
    rcases hposition with rfl | rfl <;> rfl
  have hpc : pc.Cached s := (hcached s pc).mp (hcall ▸ h.cached t)
  have hquiet (pc' : PopPc α) (hpc' : pc'.Cached s) :
      Contended N s (update f t (position pc')) :=
    h.quiet ((hcached s pc').mpr hpc')
  have hreturn : Contended N s (update f t .idle) := h.quiet trivial
  have hfailed : Contended N s (update f t ((popWith.failed s retry).call position)) := by
    unfold popWith.failed
    split_ifs
    · exact hquiet (.loadHead s.tail) le_rfl
    · exact hreturn
  cases pc <;> cases access <;> simp only [popWith, reduceCtorEq] at hstep
  case loadTail.go =>
    obtain ⟨rfl, rfl⟩ := by simpa using hstep
    exact hquiet (.loadHead s.tail) le_rfl
  case loadHead.go currentTail =>
    split_ifs at hstep with hempty
    all_goals obtain ⟨rfl, rfl⟩ := by simpa using hstep
    · exact hreturn
    · have hbehind : currentTail ≤ s.tail := hpc
      exact hquiet (.read currentTail)
        (Nat.lt_of_le_of_ne (hbehind.trans h.le) fun heq ↦ hempty heq.symm)
  case read.go currentTail =>
    obtain ⟨rfl, rfl⟩ := by simpa using hstep
    exact hquiet (.compareExchange currentTail _) hpc
  case compareExchange.go currentTail value =>
    split_ifs at hstep with hsame
    all_goals obtain ⟨rfl, rfl⟩ := by simpa using hstep
    · subst hsame
      have hordered : Ordered N (s.release value) := h.toOrdered.release hpc hfew
      have hgrown : s.tail ≤ (s.release value).tail := by
        rw [hordered.tail, h.tail, length_popped_release]
        exact Nat.le_succ _
      exact h.step hordered hgrown le_rfl trivial
    · exact hfailed
  case compareExchange.spurious currentTail value =>
    obtain ⟨rfl, rfl⟩ := by simpa using hstep
    exact hfailed

/-- A step never takes a claim back. -/
theorem length_claimed_le {choice : Choice α}
    (hstep : step N s call choice = some (s', moved)) :
    s.claimed.length ≤ s'.claimed.length := by
  unfold step at hstep
  split at hstep
  case h_1 =>
    obtain ⟨rfl, -⟩ := by simpa using hstep
    exact le_rfl
  case h_2 | h_3 =>
    obtain ⟨⟨after, progress⟩, hpush, heq⟩ := Option.map_eq_some_iff.mp hstep
    obtain ⟨rfl, rfl⟩ := Prod.mk.inj heq
    cases pushWith_effect hpush with
    | claim hpc => simp
    | _ => exact le_rfl
  case h_4 | h_5 =>
    obtain ⟨⟨after, progress⟩, hpop, heq⟩ := Option.map_eq_some_iff.mp hstep
    obtain ⟨rfl, rfl⟩ := Prod.mk.inj heq
    cases popWith_effect hpop <;> exact le_rfl
  case h_6 => cases hstep

end Events

/-! ### Runs -/

section Runs

variable [DecidableEq Tid] [Fintype Tid] {N : ℕ}

/-- One step keeps the invariant. Assumes: fewer than `2 ^ 64` positions have been claimed after
it. -/
theorem contended_step {p p' : Pool Tid (Shared α) (Call α)} {label : Label Tid (Choice α)}
    (h : Contended N p.shared p.threads) (hfew : p'.shared.claimed.length < 2 ^ 64)
    (hmove : (system N Tid α).step p label = some p') : Contended N p'.shared p'.threads := by
  obtain ⟨moved, hstep, hthreads⟩ := step_eq hmove
  rw [hthreads]
  unfold step at hstep
  split at hstep
  case h_1 method hcall hchoice =>
    obtain ⟨hshared, rfl⟩ := by simpa using hstep
    rw [← hshared]
    exact h.quiet (by cases method <;> trivial)
  case h_2 pc access hcall hchoice =>
    obtain ⟨⟨after, progress⟩, hpush, heq⟩ := Option.map_eq_some_iff.mp hstep
    obtain ⟨rfl, rfl⟩ := Prod.mk.inj heq
    exact contended_of_pushWith (.inl rfl) h hcall hfew hpush
  case h_3 pc access hcall hchoice =>
    obtain ⟨⟨after, progress⟩, hpush, heq⟩ := Option.map_eq_some_iff.mp hstep
    obtain ⟨rfl, rfl⟩ := Prod.mk.inj heq
    exact contended_of_pushWith (.inr rfl) h hcall hfew hpush
  case h_4 pc access hcall hchoice =>
    obtain ⟨⟨after, progress⟩, hpop, heq⟩ := Option.map_eq_some_iff.mp hstep
    obtain ⟨rfl, rfl⟩ := Prod.mk.inj heq
    exact contended_of_popWith (.inl rfl) h hcall hfew hpop
  case h_5 pc access hcall hchoice =>
    obtain ⟨⟨after, progress⟩, hpop, heq⟩ := Option.map_eq_some_iff.mp hstep
    obtain ⟨rfl, rfl⟩ := Prod.mk.inj heq
    exact contended_of_popWith (.inr rfl) h hcall hfew hpop
  case h_6 => cases hstep

omit [DecidableEq Tid] [Fintype Tid] in
/-- The invariant holds of a new ring buffer. -/
theorem contended_new : Contended N (new Tid α).shared (new Tid α).threads := by
  refine ⟨?_, fun _ ↦ trivial⟩
  constructor
  all_goals simp [new, Shared.new]

/-- The invariant holds in every reachable state in which fewer than `2 ^ 64` positions have been
claimed. -/
theorem contended {p : Pool Tid (Shared α) (Call α)} (h : (system N Tid α).Reachable p)
    (hfew : p.shared.claimed.length < 2 ^ 64) : Contended N p.shared p.threads := by
  have key : p.shared.claimed.length < 2 ^ 64 → Contended N p.shared p.threads := by
    refine h.invariant (P := fun p ↦ p.shared.claimed.length < 2 ^ 64 →
      Contended N p.shared p.threads) (fun _ ↦ contended_new) ?_
    intro p label p' _ ih _ hmove hfew'
    obtain ⟨moved, hstep, -⟩ := step_eq hmove
    exact contended_step (ih ((length_claimed_le hstep).trans_lt hfew')) hfew' hmove
  exact key hfew

/-- `tail` is at most `head` and `head` at most `N` further, no thread subtracts a `tail` from a
smaller `head`, and the successful compare-and-exchanges on `head` and on `tail` have claimed the
positions from zero on, each once and in order. -/
structure IndexBounds (N : ℕ) (p : Pool Tid (Shared α) (Call α)) : Prop where
  tail_le_head : p.shared.tail ≤ p.shared.head
  head_le : p.shared.head ≤ p.shared.tail + N
  noUnderflow : ∀ t value currentTail, p.threads t = .push (.loadHead value currentTail) ∨
    p.threads t = .tryPush (.loadHead value currentTail) → currentTail ≤ p.shared.head
  claimedInOrder : p.shared.claimed.map Prod.fst = List.range p.shared.head
  poppedInOrder : p.shared.popped.map Prod.fst = List.range p.shared.tail

/-- The bounds hold in every reachable state. Assumes: fewer than `2 ^ 64` positions have been
claimed in all. -/
theorem index_bounds {p : Pool Tid (Shared α) (Call α)} (h : (system N Tid α).Reachable p)
    (hfew : p.shared.claimed.length < 2 ^ 64) : IndexBounds N p := by
  have hc := contended h hfew
  refine {
    tail_le_head := hc.le
    head_le := hc.room
    noUnderflow := ?noUnderflow
    claimedInOrder := by rw [hc.head, hc.claimed]
    poppedInOrder := by rw [hc.tail, hc.popped] }
  intro t value currentTail hcall
  have hcached := hc.cached t
  have hbehind : currentTail ≤ p.shared.tail := by
    rcases hcall with hcall | hcall
    all_goals
      rw [hcall] at hcached
      exact hcached
  exact hbehind.trans hc.le

/-- `index_bounds` after a run in which thread 2 has loaded `tail` before a push and a pop, and
`head` has moved past its capacity. -/
theorem index_bounds_old_tail : ∃ p : Pool (Fin 3) (Shared ℕ) (Call ℕ),
    (p.threads 2 = .push (.loadHead 9 0) ∧ p.shared.head = 3 ∧ p.shared.tail = 1) ∧
      IndexBounds 2 p := by
  obtain ⟨p, hrun, hstate, hfew⟩ := System.exists_reachableWhen_of_exec
    (M := system 2 (Fin 3) ℕ) (fun _ _ ↦ True)
    (P := fun p ↦ (p.threads 2 = .push (.loadHead 9 0) ∧ p.shared.head = 3 ∧ p.shared.tail = 1) ∧
      p.shared.claimed.length < 2 ^ 64)
    [⟨2, .call (.push 9), none⟩, ⟨2, .access .go, none⟩,
      ⟨0, .call (.push 7), none⟩, ⟨0, .access .go, none⟩, ⟨0, .access .go, none⟩,
      ⟨0, .access .go, none⟩, ⟨0, .access .go, none⟩,
      ⟨1, .call .pop, none⟩, ⟨1, .access .go, none⟩, ⟨1, .access .go, none⟩,
      ⟨1, .access .go, none⟩, ⟨1, .access .go, none⟩,
      ⟨0, .call (.push 8), none⟩, ⟨0, .access .go, none⟩, ⟨0, .access .go, none⟩,
      ⟨0, .access .go, none⟩, ⟨0, .access .go, none⟩,
      ⟨1, .call (.tryPush 6), none⟩, ⟨1, .access .go, none⟩, ⟨1, .access .go, none⟩,
      ⟨1, .access .go, none⟩] (by decide)
  exact ⟨p, hstate, index_bounds hrun hfew⟩

end Runs

end SyncPrimitives.RingBuffer
