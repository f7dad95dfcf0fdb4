import SyncPrimitives.Concurrency.Calls
import SyncPrimitives.RingBuffer.Publication

/-!
# The ring buffer as a queue

Between two calls of a program that runs one call at a time the buffer holds a queue: the values at
the positions from `tail` up to `head`, each in its slot (`Holds`). A push or a pop that runs alone
does what it does to this queue. Positions are 64-bit words that wrap around, so a push needs the
slot of its position to be free of the positions held (`Fresh`), and a pop needs to compute the slot
that the push has written; both are so if `N` is a power of two.
-/

set_option autoImplicit false
set_option relaxedAutoImplicit false

namespace SyncPrimitives.RingBuffer

open Concurrency Function Relation StateTransition

variable {α Pc Ret : Type}

/-- The accesses of a push or a pop that runs alone. -/
def runAlone (step : Shared α → Pc → Access → Option (Shared α × Progress Pc Ret)) :
    Shared α × Progress Pc Ret → Option (Shared α × Progress Pc Ret)
  | (s, .running pc) => step s pc .go
  | (_, .returned _) => none

/-- The buffer holds a queue in the slots of the positions from `tail` to `head`. -/
structure Holds (N : ℕ) (s : Shared α) (queue : List α) : Prop where
  size : queue.length ≤ N
  tail : s.tail < 2 ^ 64
  head : s.head = (s.tail + queue.length) % 2 ^ 64
  slots : ∀ i value, queue[i]? = some value →
    s.buffer ((s.tail + i) % 2 ^ 64 % N) = some value

/-- No position that is held has the slot of the next position. -/
def Fresh (N : ℕ) (s : Shared α) (used : ℕ) : Prop :=
  ∀ i, i < used → (s.tail + i) % 2 ^ 64 % N ≠ s.head % N

section Queue

variable {N : ℕ} {s : Shared α} {queue : List α} {value : α}

theorem holds_new : Holds N (Shared.new α) [] where
  size := Nat.zero_le N
  tail := Nat.two_pow_pos 64
  head := rfl
  slots := nofun

theorem Holds.used (h : Holds N s queue) (hN : N < 2 ^ 64) :
    subUsize s.head s.tail = queue.length := by
  have hsize := h.size
  have htail := h.tail
  rw [h.head, subUsize]
  omega

theorem Holds.head_eq_tail_iff (h : Holds N s queue) (hN : N < 2 ^ 64) :
    s.head = s.tail ↔ queue = [] := by
  have hsize := h.size
  have htail := h.tail
  rw [h.head, ← List.length_eq_zero_iff]
  omega

/-- With a power of two the next slot is free as long as there is room. -/
theorem Holds.fresh (h : Holds N s queue) (hN : PowerOfTwo N) (hroom : queue.length < N) :
    Fresh N s queue.length := by
  intro i hi
  rw [h.head, hN.mod_mod, hN.mod_mod]
  exact (slot_ne (by omega) (by omega)).symm

/-- The buffer after a push that has run alone. -/
def Shared.store (N : ℕ) (s : Shared α) (value : α) : Shared α :=
  (s.claim value).write N value s.head s.claimed.length

/-- A push adds its value at the end of the queue. -/
theorem Holds.store (h : Holds N s queue) (hroom : queue.length < N)
    (hfresh : Fresh N s queue.length) : Holds N (s.store N value) (queue ++ [value]) where
  size := by
    rw [List.length_append]
    exact hroom
  tail := h.tail
  head := by
    show addUsize s.head 1 = (s.tail + (queue ++ [value]).length) % 2 ^ 64
    rw [h.head, List.length_append, addUsize, List.length_singleton]
    omega
  slots := by
    intro i entry hentry
    show update s.buffer (s.head % N) (some value) ((s.tail + i) % 2 ^ 64 % N) = some entry
    rcases getElem?_concat.mp hentry with hold | ⟨rfl, rfl⟩
    · have hi : i < queue.length := (List.getElem?_eq_some_iff.mp hold).1
      rw [update_of_ne (hfresh i hi)]
      exact h.slots i entry hold
    · rw [← h.head, update_self]

/-- The slot of the oldest value. -/
theorem Holds.oldest (h : Holds N s (value :: queue)) : s.buffer (s.tail % N) = some value := by
  have hslot := h.slots 0 value rfl
  rwa [Nat.add_zero, Nat.mod_eq_of_lt h.tail] at hslot

/-- A pop takes the oldest value away. -/
theorem Holds.release (h : Holds N s (value :: queue)) (read : MaybeUninit α) :
    Holds N (s.release read) queue where
  size := (Nat.le_succ _).trans h.size
  tail := Nat.mod_lt _ (Nat.two_pow_pos 64)
  head := by
    show s.head = (addUsize s.tail 1 + queue.length) % 2 ^ 64
    rw [h.head, addUsize, List.length_cons]
    omega
  slots := by
    intro i entry hentry
    have hslot := h.slots (i + 1) entry hentry
    show s.buffer ((addUsize s.tail 1 + i) % 2 ^ 64 % N) = some entry
    rw [← hslot, addUsize, Nat.mod_add_mod, Nat.add_right_comm, Nat.add_assoc]

/-! ### Calls that run alone -/

section Calls

variable (retry : Bool)

/-- A push into a full buffer returns its value. -/
theorem pushWith_full (value : α) (h : Holds N s queue) (hN : N < 2 ^ 64)
    (hfull : N ≤ queue.length) :
    Reaches (runAlone fun s ↦ pushWith N s retry) (s, .running (.loadTail value))
      (s, .returned (.error value)) := by
  refine .head (b := (s, .running (.loadHead value s.tail))) rfl (.single ?_)
  simp [runAlone, pushWith, h.used hN, hfull]

/-- A push into a buffer with room stores its value. -/
theorem pushWith_room (value : α) (h : Holds N s queue) (hN : N < 2 ^ 64)
    (hroom : queue.length < N) :
    Reaches (runAlone fun s ↦ pushWith N s retry) (s, .running (.loadTail value))
      (s.store N value, .returned (.ok ())) := by
  refine .head (b := (s, .running (.loadHead value s.tail))) rfl ?_
  refine .head (b := (s, .running (.compareExchange value s.head))) ?_ ?_
  · simp [runAlone, pushWith, h.used hN, hroom]
  refine .head (b := (s.claim value, .running (.write value s.head s.claimed.length))) ?_ ?_
  · simp [runAlone, pushWith, Shared.claim]
  exact .single rfl

/-- A pop from an empty buffer returns nothing. -/
theorem popWith_empty (slot : ℕ → ℕ) (h : Holds N s []) (hN : N < 2 ^ 64) :
    Reaches (runAlone fun s ↦ popWith s slot retry) (s, .running .loadTail)
      (s, .returned none) := by
  refine .head (b := (s, .running (.loadHead s.tail))) rfl (.single ?_)
  simp [runAlone, popWith, (h.head_eq_tail_iff hN).mpr rfl]

/-- A pop from a buffer that is not empty returns what it finds in the slot it computes. -/
theorem popWith_read (slot : ℕ → ℕ) (hne : s.head ≠ s.tail) :
    Reaches (runAlone fun s ↦ popWith s slot retry) (s, .running .loadTail)
      (s.release (s.buffer (slot s.tail)), .returned (some (s.buffer (slot s.tail)))) := by
  refine .head (b := (s, .running (.loadHead s.tail))) rfl ?_
  refine .head (b := (s, .running (.read s.tail))) ?_ ?_
  · simp [runAlone, popWith, hne]
  refine .head (b := (s, .running (.compareExchange s.tail (s.buffer (slot s.tail))))) rfl ?_
  refine .single ?_
  simp [runAlone, popWith, Shared.release]

/-- A pop that computes the slot of the push returns the oldest value. -/
theorem popWith_oldest {slot : ℕ → ℕ} (h : Holds N s (value :: queue)) (hN : N < 2 ^ 64)
    (hslot : slot s.tail = s.tail % N) :
    Reaches (runAlone fun s ↦ popWith s slot retry) (s, .running .loadTail)
      (s.release (some value), .returned (some (some value))) := by
  have hne : s.head ≠ s.tail := mt (h.head_eq_tail_iff hN).mp (List.cons_ne_nil _ _)
  have hread := popWith_read retry slot hne
  rwa [hslot, h.oldest] at hread

end Calls

end Queue

end SyncPrimitives.RingBuffer
