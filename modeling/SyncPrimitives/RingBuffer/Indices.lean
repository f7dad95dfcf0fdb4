import SyncPrimitives.RingBuffer.Model
import Mathlib.Data.Nat.Bitwise
import Mathlib.Tactic.SplitIfs

/-!
# The indices of the ring buffer

Positions are counted without wrapping: claim number `i` takes the position `i % 2 ^ 64`, and pop
number `i` releases it. `PushEffect` and `PopEffect` list what one access of a push or of a pop does
to the buffer. `Indexed` says that the pops are at most `N` behind the claims; a step keeps it if no
pop succeeds beside a thread that has loaded `tail`, and if no claim succeeds on a full buffer
because the compared value of `head` has come back after `2 ^ 64` claims. `Bounded` adds that at
most one thread pops at a time. It holds in every run under `IndexCondition`.
-/

set_option autoImplicit false
set_option relaxedAutoImplicit false

namespace SyncPrimitives.RingBuffer

open Concurrency Function

variable {Tid α : Type}

/-! ### What a thread is about to do -/

/-- The number of the claim whose slot is about to be written. -/
def PushPc.writing : PushPc α → Option ℕ
  | .write _ _ claim => some claim
  | _ => none

/-- Whether the next access is the compare-and-exchange on `head`. -/
def PushPc.claiming : PushPc α → Bool
  | .compareExchange _ _ => true
  | _ => false

/-- Whether the next access is the read of a slot. -/
def PopPc.reading : PopPc α → Bool
  | .read _ => true
  | _ => false

/-- Whether a value has been read and not yet been released. -/
def PopPc.holding : PopPc α → Bool
  | .compareExchange _ _ => true
  | _ => false

/-- Whether `tail` has been loaded and not yet compared. -/
def PopPc.caching : PopPc α → Bool
  | .loadTail => false
  | _ => true

def Call.writing : Call α → Option ℕ
  | .push pc => pc.writing
  | .tryPush pc => pc.writing
  | _ => none

def Call.claiming : Call α → Bool
  | .push pc => pc.claiming
  | .tryPush pc => pc.claiming
  | _ => false

def Call.reading : Call α → Bool
  | .pop pc => pc.reading
  | .tryPop pc => pc.reading
  | _ => false

def Call.holding : Call α → Bool
  | .pop pc => pc.holding
  | .tryPop pc => pc.holding
  | _ => false

def Call.caching : Call α → Bool
  | .pop pc => pc.caching
  | .tryPop pc => pc.caching
  | _ => false

/-- Whether a position is inside `pop` or `try_pop`. -/
def Call.consuming : Call α → Bool
  | .pop _ => true
  | .tryPop _ => true
  | _ => false

theorem Call.consuming_of_holding {call : Call α} (h : call.holding) : call.consuming := by
  cases call with
  | pop pc => rfl
  | tryPop pc => rfl
  | _ => cases h

theorem Call.caching_of_holding {call : Call α} (h : call.holding) : call.caching := by
  cases call with
  | pop pc => cases pc <;> first | rfl | cases h
  | tryPop pc => cases pc <;> first | rfl | cases h
  | _ => cases h

theorem Call.consuming_of_caching {call : Call α} (h : call.caching) : call.consuming := by
  cases call with
  | pop pc => rfl
  | tryPop pc => rfl
  | _ => cases h

theorem Call.writing_of_consuming {call : Call α} (h : call.consuming) : call.writing = none := by
  cases call with
  | pop pc => rfl
  | tryPop pc => rfl
  | _ => cases h

/-- Whether a choice starts a pop. -/
def Choice.startsPop : Choice α → Bool
  | .call .pop => true
  | .call .tryPop => true
  | _ => false

/-! ### The effect of one access -/

section Effects

variable {N : ℕ} {s s' : Shared α} {retry : Bool}

/-- The buffer after a claim. -/
def Shared.claim (s : Shared α) (value : α) : Shared α :=
  { s with head := addUsize s.head 1, claimed := s.claimed ++ [(s.head, value)] }

/-- The buffer after a slot write. -/
def Shared.write (N : ℕ) (s : Shared α) (value : α) (currentHead claim : ℕ) : Shared α :=
  { s with
    buffer := update s.buffer (currentHead % N) (some value)
    pushed := s.pushed ++ [claim] }

/-- The buffer after a successful pop. -/
def Shared.release (s : Shared α) (value : MaybeUninit α) : Shared α :=
  { s with tail := addUsize s.tail 1, popped := s.popped ++ [(s.tail, value)] }

@[simp] theorem length_claimed_claim {value : α} :
    (s.claim value).claimed.length = s.claimed.length + 1 := by
  simp [Shared.claim]

@[simp] theorem popped_claim {value : α} : (s.claim value).popped = s.popped := rfl

@[simp] theorem claimed_write {value : α} {currentHead claim : ℕ} :
    (s.write N value currentHead claim).claimed = s.claimed := rfl

@[simp] theorem popped_write {value : α} {currentHead claim : ℕ} :
    (s.write N value currentHead claim).popped = s.popped := rfl

@[simp] theorem claimed_release {value : MaybeUninit α} :
    (s.release value).claimed = s.claimed := rfl

@[simp] theorem length_popped_release {value : MaybeUninit α} :
    (s.release value).popped.length = s.popped.length + 1 := by
  simp [Shared.release]

/-- The effects of one access of a push. -/
inductive PushEffect (N : ℕ) (before : Shared α) (pc : PushPc α) :
    Shared α → Progress (PushPc α) (Except α Unit) → Prop
  | goOn {pc' : PushPc α} (hbefore : pc.writing = none) (hafter : pc'.writing = none) :
      PushEffect N before pc before (.running pc')
  | fail {value : α} (hbefore : pc.writing = none) :
      PushEffect N before pc before (.returned (.error value))
  | claim {value : α} (hpc : pc = .compareExchange value before.head) :
      PushEffect N before pc (before.claim value)
        (.running (.write value before.head before.claimed.length))
  | write {value : α} {currentHead claim : ℕ} (hpc : pc = .write value currentHead claim) :
      PushEffect N before pc (before.write N value currentHead claim) (.returned (.ok ()))

/-- Every access of a push has one of the effects. -/
theorem pushWith_effect {pc : PushPc α} {access : Access}
    {progress : Progress (PushPc α) (Except α Unit)}
    (h : pushWith N s retry pc access = some (s', progress)) : PushEffect N s pc s' progress := by
  have hfailed (value : α) (hbefore : pc.writing = none) :
      PushEffect N s pc s (pushWith.failed retry value) := by
    unfold pushWith.failed
    split_ifs
    · exact .goOn hbefore rfl
    · exact .fail hbefore
  cases pc <;> cases access <;> simp only [pushWith, reduceCtorEq] at h
  case loadTail.go =>
    obtain ⟨rfl, rfl⟩ := by simpa using h
    exact .goOn rfl rfl
  case loadHead.go =>
    split_ifs at h
    all_goals obtain ⟨rfl, rfl⟩ := by simpa using h
    · exact .fail rfl
    · exact .goOn rfl rfl
  case compareExchange.go value currentHead =>
    split_ifs at h with hsame
    all_goals obtain ⟨rfl, rfl⟩ := by simpa using h
    · subst hsame
      exact .claim rfl
    · exact hfailed value rfl
  case compareExchange.spurious value currentHead =>
    obtain ⟨rfl, rfl⟩ := by simpa using h
    exact hfailed value rfl
  case write.go =>
    obtain ⟨rfl, rfl⟩ := by simpa using h
    exact .write rfl

/-- Why a pop returns `None`: the loaded `head` is the loaded `tail`, or the compare-and-exchange of
`try_pop` has failed, spuriously or because `tail` has moved. -/
inductive PopFailure (retry : Bool) (before : Shared α) (access : Access) : PopPc α → Prop
  | empty : PopFailure retry before access (.loadHead before.head)
  | contended {currentTail : ℕ} {value : MaybeUninit α} (hretry : retry = false)
      (hfailed : access = .spurious ∨ before.tail ≠ currentTail) :
      PopFailure retry before access (.compareExchange currentTail value)

/-- The effects of one access of a pop. -/
inductive PopEffect (slot : ℕ → ℕ) (retry : Bool) (before : Shared α) (access : Access)
    (pc : PopPc α) : Shared α → Progress (PopPc α) (Option (MaybeUninit α)) → Prop
  | goOn {pc' : PopPc α} (hafter : pc'.holding = false) :
      PopEffect slot retry before access pc before (.running pc')
  | fail (hfailure : PopFailure retry before access pc) :
      PopEffect slot retry before access pc before (.returned none)
  | read {currentTail : ℕ} (hpc : pc = .read currentTail) :
      PopEffect slot retry before access pc before
        (.running (.compareExchange currentTail (before.buffer (slot currentTail))))
  | release {value : MaybeUninit α} (hpc : pc = .compareExchange before.tail value)
      (haccess : access = .go) :
      PopEffect slot retry before access pc (before.release value) (.returned (some value))

/-- Every access of a pop has one of the effects. -/
theorem popWith_effect {slot : ℕ → ℕ} {pc : PopPc α} {access : Access}
    {progress : Progress (PopPc α) (Option (MaybeUninit α))}
    (h : popWith s slot retry pc access = some (s', progress)) :
    PopEffect slot retry s access pc s' progress := by
  have hfailed (currentTail : ℕ) (value : MaybeUninit α)
      (hpc : pc = .compareExchange currentTail value)
      (hwhy : access = .spurious ∨ s.tail ≠ currentTail) :
      PopEffect slot retry s access pc s (popWith.failed s retry) := by
    subst hpc
    unfold popWith.failed
    split_ifs with hretry
    · exact .goOn rfl
    · exact .fail (.contended (Bool.eq_false_iff.mpr hretry) hwhy)
  cases pc <;> cases access <;> simp only [popWith, reduceCtorEq] at h
  case loadTail.go =>
    obtain ⟨rfl, rfl⟩ := by simpa using h
    exact .goOn rfl
  case loadHead.go currentTail =>
    split_ifs at h with hempty
    all_goals obtain ⟨rfl, rfl⟩ := by simpa using h
    · subst hempty
      exact .fail .empty
    · exact .goOn rfl
  case read.go =>
    obtain ⟨rfl, rfl⟩ := by simpa using h
    exact .read rfl
  case compareExchange.go currentTail value =>
    split_ifs at h with hsame
    all_goals obtain ⟨rfl, rfl⟩ := by simpa using h
    · subst hsame
      exact .release rfl rfl
    · exact hfailed currentTail value rfl (.inr hsame)
  case compareExchange.spurious currentTail value =>
    obtain ⟨rfl, rfl⟩ := by simpa using h
    exact hfailed currentTail value rfl (.inl rfl)

end Effects

/-! ### Sizes -/

/-- The sizes `2 ^ k` that fit into a `usize`. -/
def PowerOfTwo (N : ℕ) : Prop := ∃ k, k < 64 ∧ N = 2 ^ k

section Size

variable {N : ℕ}

theorem PowerOfTwo.lt (h : PowerOfTwo N) : N < 2 ^ 64 := by
  obtain ⟨k, hk, rfl⟩ := h
  exact Nat.pow_lt_pow_right (by omega) hk

/-- The slot of a position does not depend on wrapping. -/
theorem PowerOfTwo.mod_mod (h : PowerOfTwo N) (i : ℕ) : i % 2 ^ 64 % N = i % N := by
  obtain ⟨k, hk, rfl⟩ := h
  exact Nat.mod_mod_of_dvd i (Nat.pow_dvd_pow 2 hk.le)

/-- `pop` and `try_pop` compute the same slot. -/
theorem PowerOfTwo.and_sub_one (h : PowerOfTwo N) (i : ℕ) : i &&& (N - 1) = i % N := by
  obtain ⟨k, -, rfl⟩ := h
  exact Nat.and_two_pow_sub_one_eq_mod i k

end Size

/-! ### The invariant on the indices -/

/-- What a position inside `push` or `try_push` knows about the indices it has loaded, as long as
fewer than `2 ^ 64` positions have been claimed. -/
def PushPc.Bound (N : ℕ) (s : Shared α) : PushPc α → Prop
  | .loadHead _ currentTail => s.claimed.length < 2 ^ 64 → currentTail ≤ s.popped.length
  | .compareExchange _ currentHead =>
    s.claimed.length < 2 ^ 64 → currentHead < s.popped.length + N
  | _ => True

/-- What a position inside `pop` or `try_pop` knows about the indices it has loaded, as long as no
other pop succeeds. -/
def PopPc.Bound (s : Shared α) : PopPc α → Prop
  | .loadTail => True
  | .loadHead currentTail => currentTail = s.tail
  | .read currentTail => currentTail = s.tail ∧ s.popped.length < s.claimed.length
  | .compareExchange currentTail _ => currentTail = s.tail ∧ s.popped.length < s.claimed.length

/-- What a position knows about the indices it has loaded. -/
def Call.Bound (N : ℕ) (s : Shared α) : Call α → Prop
  | .idle => True
  | .push pc => pc.Bound N s
  | .tryPush pc => pc.Bound N s
  | .pop pc => pc.Bound s
  | .tryPop pc => pc.Bound s

/-- The words are the counts modulo `2 ^ 64`, and the pops are at most `N` behind the claims. -/
structure Indexed (N : ℕ) (s : Shared α) (f : Tid → Call α) : Prop where
  head : s.head = s.claimed.length % 2 ^ 64
  tail : s.tail = s.popped.length % 2 ^ 64
  le : s.popped.length ≤ s.claimed.length
  room : s.claimed.length ≤ s.popped.length + N
  bound : ∀ u, (f u).Bound N s

/-- The words are the counts modulo `2 ^ 64`, the pops are at most `N` behind the claims, and at
most one thread is inside `pop` or `try_pop`. -/
structure Bounded (N : ℕ) (s : Shared α) (f : Tid → Call α) : Prop where
  head : s.head = s.claimed.length % 2 ^ 64
  tail : s.tail = s.popped.length % 2 ^ 64
  le : s.popped.length ≤ s.claimed.length
  room : s.claimed.length ≤ s.popped.length + N
  bound : ∀ u, (f u).Bound N s
  alone : ∀ u v, (f u).consuming → (f v).consuming → u = v

section Bound

variable {N : ℕ} {s : Shared α} {f : Tid → Call α} {call : Call α}

theorem PopPc.Bound.lt_of_holding {pc : PopPc α} (h : pc.Bound s) (hholding : pc.holding) :
    s.popped.length < s.claimed.length := by
  cases pc with
  | compareExchange currentTail value => exact h.2
  | _ => cases hholding

theorem Bounded.indexed (h : Bounded N s f) : Indexed N s f := { h with }

/-- A thread that has read a slot has read it from a claim that is not popped. -/
theorem Indexed.lt_of_holding (h : Indexed N s f) {u : Tid} (hholding : (f u).holding) :
    s.popped.length < s.claimed.length := by
  have hbound := h.bound u
  cases hcall : f u with
  | pop pc =>
    rw [hcall] at hbound hholding
    exact PopPc.Bound.lt_of_holding hbound hholding
  | tryPop pc =>
    rw [hcall] at hbound hholding
    exact PopPc.Bound.lt_of_holding hbound hholding
  | _ =>
    rw [hcall] at hholding
    cases hholding

/-- Equal words mean an empty buffer. -/
theorem Bounded.length_eq (hN : N < 2 ^ 64) (h : Bounded N s f) (heq : s.head = s.tail) :
    s.claimed.length = s.popped.length := by
  have hle := h.le
  have hroom := h.room
  rw [h.head, h.tail] at heq
  omega

/-- A pop that finds the loaded `tail` in `head` has found the buffer empty. -/
theorem Bounded.length_eq_of_loadHead (hN : N < 2 ^ 64) (h : Bounded N s f) {u : Tid}
    (hcall : f u = .pop (.loadHead s.head) ∨ f u = .tryPop (.loadHead s.head)) :
    s.claimed.length = s.popped.length := by
  refine h.length_eq hN ?_
  have hbound := h.bound u
  rcases hcall with hcall | hcall
  all_goals
    rw [hcall] at hbound
    exact hbound

/-- A compare-and-exchange of the only `pop` or `try_pop` compares `tail` with itself. -/
theorem Bounded.tail_eq_of_compareExchange (h : Bounded N s f) {u : Tid} {currentTail : ℕ}
    {value : MaybeUninit α} (hcall : f u = .tryPop (.compareExchange currentTail value)) :
    s.tail = currentTail := by
  have hbound := h.bound u
  rw [hcall] at hbound
  exact hbound.1.symm

/-- A claim of another thread leaves what a position knows. -/
theorem Call.Bound.of_claim {value : α} (h : call.Bound N s) : call.Bound N (s.claim value) := by
  have hpush (pc : PushPc α) (hpc : pc.Bound N s) : pc.Bound N (s.claim value) := by
    cases pc with
    | loadHead value currentTail =>
      intro hlt
      rw [length_claimed_claim] at hlt
      exact hpc (by omega)
    | compareExchange value currentHead =>
      intro hlt
      rw [length_claimed_claim] at hlt
      exact hpc (by omega)
    | _ => trivial
  have hlength : s.claimed.length ≤ (s.claim value).claimed.length := by simp [Shared.claim]
  have hpop (pc : PopPc α) (hpc : pc.Bound s) : pc.Bound (s.claim value) := by
    cases pc with
    | loadTail => trivial
    | loadHead currentTail => exact hpc
    | read currentTail => exact ⟨hpc.1, hpc.2.trans_le hlength⟩
    | compareExchange currentTail value => exact ⟨hpc.1, hpc.2.trans_le hlength⟩
  cases call with
  | idle => trivial
  | push pc => exact hpush pc h
  | tryPush pc => exact hpush pc h
  | pop pc => exact hpop pc h
  | tryPop pc => exact hpop pc h

/-- A pop leaves what the positions know that have not loaded `tail` in a pop. -/
theorem Call.Bound.of_release {value : MaybeUninit α} (h : call.Bound N s)
    (hcaching : call.caching = false) : call.Bound N (s.release value) := by
  have hpush (pc : PushPc α) (hpc : pc.Bound N s) : pc.Bound N (s.release value) := by
    cases pc with
    | loadHead value currentTail =>
      intro hlt
      rw [length_popped_release]
      exact (hpc hlt).trans (Nat.le_succ _)
    | compareExchange value currentHead =>
      intro hlt
      have hcached := hpc hlt
      rw [length_popped_release]
      omega
    | _ => trivial
  have hpop (pc : PopPc α) (hpc : pc.caching = false) : pc.Bound (s.release value) := by
    cases pc with
    | loadTail => trivial
    | _ => cases hpc
  cases call with
  | idle => trivial
  | push pc => exact hpush pc h
  | tryPush pc => exact hpush pc h
  | pop pc => exact hpop pc hcaching
  | tryPop pc => exact hpop pc hcaching

end Bound

section Events

variable [DecidableEq Tid] {N : ℕ} {t : Tid} {s s' : Shared α} {f : Tid → Call α} {moved : Call α}

/-- A step that leaves the indices keeps the invariant. -/
theorem indexed_of_quiet (h : Indexed N s f) (hbound : moved.Bound N s) :
    Indexed N s (update f t moved) := by
  refine { h with bound := fun u ↦ ?_ }
  by_cases hu : u = t
  · rw [hu, update_self]
    exact hbound
  · rw [update_of_ne hu]
    exact h.bound u

/-- A claim keeps the invariant. Assumes: fewer than `N` positions are in use. -/
theorem indexed_of_claim {value : α} (h : Indexed N s f)
    (hroom : s.claimed.length < s.popped.length + N) (hbound : moved.Bound N (s.claim value)) :
    Indexed N (s.claim value) (update f t moved) := by
  have hclaim : Indexed N (s.claim value) f := by
    refine { h with head := ?head, le := ?le, room := ?room, bound := ?bound }
    case head =>
      simp only [Shared.claim, List.length_append, List.length_singleton, addUsize, h.head]
      omega
    case le =>
      rw [length_claimed_claim]
      exact h.le.trans (Nat.le_succ _)
    case room =>
      rw [length_claimed_claim]
      exact hroom
    case bound => exact fun u ↦ (h.bound u).of_claim
  exact indexed_of_quiet hclaim hbound

/-- A successful pop keeps the invariant. Assumes: no other thread has loaded `tail`. -/
theorem indexed_of_release {value : MaybeUninit α} (h : Indexed N s f)
    (hothers : ∀ u, u ≠ t → (f u).caching = false) (hlt : s.popped.length < s.claimed.length) :
    Indexed N (s.release value) (update f t .idle) := by
  constructor
  case head => exact h.head
  case tail =>
    simp only [Shared.release, List.length_append, List.length_singleton, addUsize, h.tail]
    omega
  case le =>
    rw [length_popped_release]
    exact hlt
  case room =>
    have hroom := h.room
    rw [claimed_release, length_popped_release]
    omega
  case bound =>
    intro u
    by_cases hu : u = t
    · rw [hu, update_self]
      trivial
    · rw [update_of_ne hu]
      exact (h.bound u).of_release (hothers u hu)

omit [DecidableEq Tid] in
/-- A claim finds fewer than `N` positions in use. Assumes: fewer than `2 ^ 64` positions have been
claimed, or the buffer is not full. -/
theorem Indexed.lt_of_claiming (hN : N < 2 ^ 64) (h : Indexed N s f)
    (hcached : s.claimed.length < 2 ^ 64 → s.head < s.popped.length + N)
    (hroom : s.claimed.length < 2 ^ 64 ∨ subUsize s.head s.tail < N) :
    s.claimed.length < s.popped.length + N := by
  have hle := h.le
  have hused := h.room
  rcases hroom with hlt | hnotFull
  · have hhead := hcached hlt
    rw [h.head, Nat.mod_eq_of_lt hlt] at hhead
    exact hhead
  · rw [h.head, h.tail] at hnotFull
    unfold subUsize at hnotFull
    omega

/-- A step of `push` or `try_push` keeps the invariant. Assumes: a claim happens only while fewer
than `2 ^ 64` positions have been claimed or while the buffer is not full. -/
theorem indexed_of_pushWith (hN : N < 2 ^ 64) {position : PushPc α → Call α}
    (hposition : position = .push ∨ position = .tryPush) {retry : Bool} {pc : PushPc α}
    {access : Access} {progress : Progress (PushPc α) (Except α Unit)}
    (h : Indexed N s f) (hcall : f t = position pc)
    (hroom : pc.claiming → s.claimed.length < 2 ^ 64 ∨ subUsize s.head s.tail < N)
    (hstep : pushWith N s retry pc access = some (s', progress)) :
    Indexed N s' (update f t (progress.call position)) := by
  have hbound (s : Shared α) (pc : PushPc α) : (position pc).Bound N s ↔ pc.Bound N s := by
    rcases hposition with rfl | rfl <;> rfl
  have hpc : pc.Bound N s := (hbound s pc).mp (hcall ▸ h.bound t)
  have hquiet (pc' : PushPc α) (hpc' : pc'.Bound N s) :
      Indexed N s (update f t (position pc')) :=
    indexed_of_quiet h ((hbound s pc').mpr hpc')
  have hreturn : Indexed N s (update f t .idle) := indexed_of_quiet h trivial
  have hfailed (value : α) :
      Indexed N s (update f t ((pushWith.failed retry value).call position)) := by
    unfold pushWith.failed
    split_ifs
    · exact hquiet _ trivial
    · exact hreturn
  have hle := h.le
  cases pc <;> cases access <;> simp only [pushWith, reduceCtorEq] at hstep
  case loadTail.go value =>
    obtain ⟨rfl, rfl⟩ := by simpa using hstep
    refine hquiet _ fun hlt ↦ ?_
    rw [h.tail]
    omega
  case loadHead.go value currentTail =>
    split_ifs at hstep with hfull
    all_goals obtain ⟨rfl, rfl⟩ := by simpa using hstep
    · exact hreturn
    · refine hquiet _ fun hlt ↦ ?_
      -- the tail was loaded before the head, so it is not ahead of it
      have hbehind := hpc hlt
      rw [h.head, Nat.mod_eq_of_lt hlt] at hfull ⊢
      rw [subUsize_of_le (hbehind.trans hle) hlt] at hfull
      omega
  case compareExchange.go value currentHead =>
    split_ifs at hstep with hsame
    all_goals obtain ⟨rfl, rfl⟩ := by simpa using hstep
    · subst hsame
      exact indexed_of_claim h (h.lt_of_claiming hN hpc (hroom rfl)) ((hbound _ _).mpr trivial)
    · exact hfailed value
  case compareExchange.spurious value currentHead =>
    obtain ⟨rfl, rfl⟩ := by simpa using hstep
    exact hfailed value
  case write.go value currentHead claim =>
    obtain ⟨rfl, rfl⟩ := by simpa using hstep
    have hwrite : Indexed N (s.write N value currentHead claim) f := { h with }
    exact indexed_of_quiet hwrite trivial

/-- A step of `pop` or `try_pop` keeps the invariant. Assumes: it compares `tail` only while no
other thread has loaded it. -/
theorem indexed_of_popWith {position : PopPc α → Call α}
    (hposition : position = .pop ∨ position = .tryPop) {slot : ℕ → ℕ} {retry : Bool} {pc : PopPc α}
    {access : Access} {progress : Progress (PopPc α) (Option (MaybeUninit α))}
    (h : Indexed N s f) (hcall : f t = position pc)
    (hothers : pc.holding → ∀ u, u ≠ t → (f u).caching = false)
    (hstep : popWith s slot retry pc access = some (s', progress)) :
    Indexed N s' (update f t (progress.call position)) := by
  have hbound (s : Shared α) (pc : PopPc α) : (position pc).Bound N s ↔ pc.Bound s := by
    rcases hposition with rfl | rfl <;> rfl
  have hpc : pc.Bound s := (hbound s pc).mp (hcall ▸ h.bound t)
  have hquiet (pc' : PopPc α) (hpc' : pc'.Bound s) : Indexed N s (update f t (position pc')) :=
    indexed_of_quiet h ((hbound s pc').mpr hpc')
  have hreturn : Indexed N s (update f t .idle) := indexed_of_quiet h trivial
  have hfailed : Indexed N s (update f t ((popWith.failed s retry).call position)) := by
    unfold popWith.failed
    split_ifs
    · exact hquiet _ rfl
    · exact hreturn
  cases pc <;> cases access <;> simp only [popWith, reduceCtorEq] at hstep
  case loadTail.go =>
    obtain ⟨rfl, rfl⟩ := by simpa using hstep
    exact hquiet _ rfl
  case loadHead.go currentTail =>
    split_ifs at hstep with hempty
    all_goals obtain ⟨rfl, rfl⟩ := by simpa using hstep
    · exact hreturn
    · refine hquiet _ ⟨hpc, Nat.lt_of_le_of_ne h.le fun heq ↦ hempty ?_⟩
      have htail : currentTail = s.tail := hpc
      rw [htail, h.head, h.tail, heq]
  case read.go currentTail =>
    obtain ⟨rfl, rfl⟩ := by simpa using hstep
    exact hquiet _ hpc
  case compareExchange.go currentTail value =>
    split_ifs at hstep with hsame
    all_goals obtain ⟨rfl, rfl⟩ := by simpa using hstep
    · subst hsame
      exact indexed_of_release h (hothers rfl) hpc.2
    · exact hfailed
  case compareExchange.spurious currentTail value =>
    obtain ⟨rfl, rfl⟩ := by simpa using hstep
    exact hfailed

omit [DecidableEq Tid] in
/-- A thread is inside a pop that it was inside before, or it has just started it. -/
theorem consuming_of_step {call : Call α} {choice : Choice α}
    (hstep : step N s call choice = some (s', moved)) (hconsuming : moved.consuming) :
    call.consuming ∨ choice.startsPop := by
  unfold step at hstep
  split at hstep
  case h_1 method =>
    obtain ⟨-, rfl⟩ := by simpa using hstep
    cases method <;> first | exact .inr rfl | cases hconsuming
  case h_2 | h_3 =>
    obtain ⟨⟨after, progress⟩, -, heq⟩ := Option.map_eq_some_iff.mp hstep
    obtain ⟨rfl, rfl⟩ := Prod.mk.inj heq
    cases progress <;> cases hconsuming
  case h_4 | h_5 => exact .inl rfl
  case h_6 => cases hstep

end Events

/-! ### Runs -/

section Runs

variable [DecidableEq Tid] [Fintype Tid] {N : ℕ}

/-- The condition on a step under which the indices are bounded: a pop starts only when no other is
in progress, and a position is claimed only while fewer than `2 ^ 64` positions have been claimed or
while the buffer is not full. -/
structure IndexCondition (N : ℕ) (p : Pool Tid (Shared α) (Call α)) (label : Label Tid (Choice α)) :
    Prop where
  onePop : label.choice.startsPop → ∀ u, (p.threads u).consuming = false
  roomToClaim : (p.threads label.thread).claiming →
    p.shared.claimed.length < 2 ^ 64 ∨ subUsize p.shared.head p.shared.tail < N

instance (p : Pool Tid (Shared α) (Call α)) (label : Label Tid (Choice α)) :
    Decidable (IndexCondition N p label) :=
  decidable_of_iff
    ((label.choice.startsPop → ∀ u, (p.threads u).consuming = false) ∧
      ((p.threads label.thread).claiming →
        p.shared.claimed.length < 2 ^ 64 ∨ subUsize p.shared.head p.shared.tail < N))
    ⟨fun ⟨h₁, h₂⟩ ↦ ⟨h₁, h₂⟩, fun ⟨h₁, h₂⟩ ↦ ⟨h₁, h₂⟩⟩

/-- A step of the pool is a step of one thread. -/
theorem step_eq {p p' : Pool Tid (Shared α) (Call α)} {label : Label Tid (Choice α)}
    (h : (system N Tid α).step p label = some p') :
    ∃ moved, step N p.shared (p.threads label.thread) label.choice = some (p'.shared, moved) ∧
      p'.threads = update p.threads label.thread moved := by
  obtain ⟨moved, signal, hlocal, hdelivered⟩ := Machine.step_cases h
  simp only [machine, Option.map_eq_some_iff, Prod.mk.injEq, Prod.exists] at hlocal
  obtain ⟨after, moved', hstep, rfl, rfl, rfl⟩ := hlocal
  exact ⟨moved', hstep, hdelivered.silent_eq⟩

/-- A step of one thread is a step of the pool. -/
theorem step_of {p : Pool Tid (Shared α) (Call α)} {t : Tid} {choice : Choice α}
    {woken : Option Tid}
    {after : Shared α} {moved : Call α}
    (h : step N p.shared (p.threads t) choice = some (after, moved)) :
    (system N Tid α).step p ⟨t, choice, woken⟩ = some ⟨after, update p.threads t moved⟩ := by
  simp [system, Machine.system, machine, Machine.deliver, h]

/-- One step keeps the invariant on the indices. Assumes: a position is claimed only while fewer
than `2 ^ 64` positions have been claimed or while the buffer is not full, and `tail` is compared
only while no other thread has loaded it. -/
theorem indexed_step (hN : N < 2 ^ 64) {p p' : Pool Tid (Shared α) (Call α)}
    {label : Label Tid (Choice α)} (h : Indexed N p.shared p.threads)
    (hroom : (p.threads label.thread).claiming →
      p.shared.claimed.length < 2 ^ 64 ∨ subUsize p.shared.head p.shared.tail < N)
    (hothers : (p.threads label.thread).holding →
      ∀ u, u ≠ label.thread → (p.threads u).caching = false)
    (hmove : (system N Tid α).step p label = some p') : Indexed N p'.shared p'.threads := by
  obtain ⟨moved, hstep, hthreads⟩ := step_eq hmove
  rw [hthreads]
  unfold step at hstep
  split at hstep
  case h_1 method hcall hchoice =>
    obtain ⟨hshared, rfl⟩ := by simpa using hstep
    rw [← hshared]
    exact indexed_of_quiet h (by cases method <;> trivial)
  case h_2 pc access hcall hchoice =>
    rw [hcall] at hroom
    obtain ⟨⟨after, progress⟩, hpush, heq⟩ := Option.map_eq_some_iff.mp hstep
    obtain ⟨rfl, rfl⟩ := Prod.mk.inj heq
    exact indexed_of_pushWith hN (.inl rfl) h hcall hroom hpush
  case h_3 pc access hcall hchoice =>
    rw [hcall] at hroom
    obtain ⟨⟨after, progress⟩, hpush, heq⟩ := Option.map_eq_some_iff.mp hstep
    obtain ⟨rfl, rfl⟩ := Prod.mk.inj heq
    exact indexed_of_pushWith hN (.inr rfl) h hcall hroom hpush
  case h_4 pc access hcall hchoice =>
    rw [hcall] at hothers
    obtain ⟨⟨after, progress⟩, hpop, heq⟩ := Option.map_eq_some_iff.mp hstep
    obtain ⟨rfl, rfl⟩ := Prod.mk.inj heq
    exact indexed_of_popWith (.inl rfl) h hcall hothers hpop
  case h_5 pc access hcall hchoice =>
    rw [hcall] at hothers
    obtain ⟨⟨after, progress⟩, hpop, heq⟩ := Option.map_eq_some_iff.mp hstep
    obtain ⟨rfl, rfl⟩ := Prod.mk.inj heq
    exact indexed_of_popWith (.inr rfl) h hcall hothers hpop
  case h_6 => cases hstep

/-- Pops that start only when no other is in progress do not overlap. -/
theorem alone_step {p p' : Pool Tid (Shared α) (Call α)} {label : Label Tid (Choice α)}
    (h : ∀ u v, (p.threads u).consuming → (p.threads v).consuming → u = v)
    (honePop : label.choice.startsPop → ∀ u, (p.threads u).consuming = false)
    (hmove : (system N Tid α).step p label = some p') :
    ∀ u v, (p'.threads u).consuming → (p'.threads v).consuming → u = v := by
  obtain ⟨moved, hstep, hthreads⟩ := step_eq hmove
  rw [hthreads]
  have hself (hmoved : moved.consuming) (u : Tid) (hu : (p.threads u).consuming) :
      u = label.thread := by
    rcases consuming_of_step hstep hmoved with hbefore | hstarts
    · exact h u label.thread hu hbefore
    · rw [honePop hstarts u] at hu
      cases hu
  intro u v hu hv
  by_cases hut : u = label.thread
  · by_cases hvt : v = label.thread
    · rw [hut, hvt]
    · rw [update_of_ne hvt] at hv
      rw [hut, update_self] at hu
      exact absurd (hself hu v hv) hvt
  · rw [update_of_ne hut] at hu
    by_cases hvt : v = label.thread
    · rw [hvt, update_self] at hv
      exact absurd (hself hv u hu) hut
    · rw [update_of_ne hvt] at hv
      exact h u v hu hv

omit [DecidableEq Tid] [Fintype Tid] in
/-- The only pop compares `tail` while no other thread has loaded it. -/
theorem Bounded.caching_of_holding {s : Shared α} {f : Tid → Call α} {t : Tid} (h : Bounded N s f)
    (hholding : (f t).holding) (u : Tid) (hu : u ≠ t) : (f u).caching = false :=
  Bool.eq_false_iff.mpr fun hcaching ↦
    hu (h.alone u t (Call.consuming_of_caching hcaching) (Call.consuming_of_holding hholding))

/-- One step keeps the invariant. Assumes: the condition on the step. -/
theorem bounded_step (hN : N < 2 ^ 64) {p p' : Pool Tid (Shared α) (Call α)}
    {label : Label Tid (Choice α)} (h : Bounded N p.shared p.threads)
    (hok : IndexCondition N p label) (hmove : (system N Tid α).step p label = some p') :
    Bounded N p'.shared p'.threads :=
  { indexed_step hN h.indexed hok.roomToClaim h.caching_of_holding hmove with
    alone := alone_step h.alone hok.onePop hmove }

omit [DecidableEq Tid] [Fintype Tid] in
/-- The invariant holds of a new ring buffer. -/
theorem bounded_new : Bounded N (new Tid α).shared (new Tid α).threads := by
  constructor
  all_goals simp [new, Shared.new, Call.Bound, Call.consuming]

/-- The indices are bounded in every state of a run under the condition. -/
theorem bounded (hN : N < 2 ^ 64) {ok : Pool Tid (Shared α) (Call α) → Label Tid (Choice α) → Prop}
    (hok : ∀ p label, ok p label → IndexCondition N p label) {p : Pool Tid (Shared α) (Call α)}
    (h : (system N Tid α).ReachableWhen ok p) : Bounded N p.shared p.threads := by
  refine h.invariant (P := fun p ↦ Bounded N p.shared p.threads) bounded_new ?_
  intro p label p' _ hbounded hmeets hmove
  exact bounded_step hN hbounded (hok _ _ hmeets) hmove

/-! ### The claims of the pushes -/

/-- Every push that returned `Ok` has claimed a position, and so has every push about to write. -/
structure Logged (s : Shared α) (f : Tid → Call α) : Prop where
  pushed : ∀ i ∈ s.pushed, i < s.claimed.length
  writing : ∀ u i, (f u).writing = some i → i < s.claimed.length

omit [Fintype Tid] in
/-- A step of `push` or `try_push` keeps the log. -/
theorem logged_of_pushWith {s s' : Shared α} {f : Tid → Call α} {t : Tid}
    {position : PushPc α → Call α}
    (hwriting : ∀ pc, (position pc).writing = pc.writing) {retry : Bool} {pc : PushPc α}
    {access : Access} {progress : Progress (PushPc α) (Except α Unit)}
    (h : Logged s f) (hcall : f t = position pc)
    (hstep : pushWith N s retry pc access = some (s', progress)) :
    Logged s' (update f t (progress.call position)) := by
  have hself (i : ℕ) (hi : pc.writing = some i) : i < s.claimed.length :=
    h.writing t i (by rw [hcall, hwriting, hi])
  have hother (bound : ℕ) (hle : s.claimed.length ≤ bound) (moved : Call α)
      (hmoved : ∀ i, moved.writing = some i → i < bound) (u : Tid) (i : ℕ)
      (hu : (update f t moved u).writing = some i) : i < bound := by
    by_cases hut : u = t
    · rw [hut, update_self] at hu
      exact hmoved i hu
    · rw [update_of_ne hut] at hu
      exact (h.writing u i hu).trans_le hle
  cases pushWith_effect hstep with
  | @goOn pc' hbefore hafter =>
    refine ⟨h.pushed, hother _ le_rfl _ fun i hi ↦ ?_⟩
    rw [Progress.call, hwriting, hafter] at hi
    cases hi
  | fail hbefore => exact ⟨h.pushed, hother _ le_rfl _ fun i hi ↦ by cases hi⟩
  | @claim value hpc =>
    refine ⟨fun i hi ↦ ?_, hother _ ?_ _ fun i hi ↦ ?_⟩
    · rw [length_claimed_claim]
      exact (h.pushed i hi).trans (Nat.lt_succ_self _)
    · rw [length_claimed_claim]
      exact Nat.le_succ _
    · rw [Progress.call, hwriting] at hi
      obtain rfl := Option.some.inj hi
      rw [length_claimed_claim]
      exact Nat.lt_succ_self _
  | @write value currentHead claim hpc =>
    refine ⟨fun i hi ↦ ?_, hother _ le_rfl _ fun i hi ↦ by cases hi⟩
    rcases List.mem_append.mp hi with hi | hi
    · exact h.pushed i hi
    · rw [List.mem_singleton.mp hi]
      exact hself claim (by rw [hpc]; rfl)

omit [Fintype Tid] in
/-- A step of `pop` or `try_pop` keeps the log. -/
theorem logged_of_popWith {s s' : Shared α} {f : Tid → Call α} {t : Tid}
    {position : PopPc α → Call α}
    (hwriting : ∀ pc, (position pc).writing = none) {slot : ℕ → ℕ} {retry : Bool} {pc : PopPc α}
    {access : Access} {progress : Progress (PopPc α) (Option (MaybeUninit α))}
    (h : Logged s f) (hstep : popWith s slot retry pc access = some (s', progress)) :
    Logged s' (update f t (progress.call position)) := by
  have hmoved : (progress.call position).writing = none := by
    cases progress with
    | running pc => exact hwriting pc
    | returned ret => rfl
  have hclaims : s'.claimed = s.claimed ∧ s'.pushed = s.pushed := by
    cases popWith_effect hstep <;> exact ⟨rfl, rfl⟩
  refine ⟨by rw [hclaims.1, hclaims.2]; exact h.pushed, fun u i hu ↦ ?_⟩
  rw [hclaims.1]
  by_cases hut : u = t
  · rw [hut, update_self, hmoved] at hu
    cases hu
  · rw [update_of_ne hut] at hu
    exact h.writing u i hu

/-- The log is kept in every state of every run, with any number of consumers. -/
theorem logged {ok : Pool Tid (Shared α) (Call α) → Label Tid (Choice α) → Prop}
    {p : Pool Tid (Shared α) (Call α)} (h : (system N Tid α).ReachableWhen ok p) :
    Logged p.shared p.threads := by
  refine h.invariant (P := fun p ↦ Logged p.shared p.threads) ?_ ?_
  · exact ⟨fun i hi ↦ (by cases hi), fun u i hu ↦ (by cases hu)⟩
  · intro p label p' _ hlogged _ hmove
    obtain ⟨moved, hstep, hthreads⟩ := step_eq hmove
    rw [hthreads]
    unfold step at hstep
    split at hstep
    case h_1 method hcall hchoice =>
      obtain ⟨hshared, rfl⟩ := by simpa using hstep
      rw [← hshared]
      refine ⟨hlogged.pushed, fun u i hu ↦ ?_⟩
      by_cases hut : u = label.thread
      · rw [hut, update_self] at hu
        cases method <;> cases hu
      · rw [update_of_ne hut] at hu
        exact hlogged.writing u i hu
    case h_2 pc access hcall hchoice =>
      obtain ⟨⟨after, progress⟩, hpush, heq⟩ := Option.map_eq_some_iff.mp hstep
      obtain ⟨rfl, rfl⟩ := Prod.mk.inj heq
      exact logged_of_pushWith (fun _ ↦ rfl) hlogged hcall hpush
    case h_3 pc access hcall hchoice =>
      obtain ⟨⟨after, progress⟩, hpush, heq⟩ := Option.map_eq_some_iff.mp hstep
      obtain ⟨rfl, rfl⟩ := Prod.mk.inj heq
      exact logged_of_pushWith (fun _ ↦ rfl) hlogged hcall hpush
    case h_4 pc access hcall hchoice =>
      obtain ⟨⟨after, progress⟩, hpop, heq⟩ := Option.map_eq_some_iff.mp hstep
      obtain ⟨rfl, rfl⟩ := Prod.mk.inj heq
      exact logged_of_popWith (fun _ ↦ rfl) hlogged hpop
    case h_5 pc access hcall hchoice =>
      obtain ⟨⟨after, progress⟩, hpop, heq⟩ := Option.map_eq_some_iff.mp hstep
      obtain ⟨rfl, rfl⟩ := Prod.mk.inj heq
      exact logged_of_popWith (fun _ ↦ rfl) hlogged hpop
    case h_6 => cases hstep

end Runs

end SyncPrimitives.RingBuffer
