import SyncPrimitives.RingBuffer.Ownership

/-!
# The ring buffer is a bounded FIFO queue

`fifo` is a list of at most `N` values: a push adds its value at the end or is refused when the list
is full, a pop takes the first value or finds none. Complete calls on a ring buffer whose size is a
power of two return what the same calls return on the list (`ring_refines_fifo`). The calls start
with `head == tail` at any word, so either index may wrap around before the other, and they may be
any number. What carries the proof is `Holds`, which counts positions from the word `tail` and takes
them modulo `2 ^ 64`: from a buffer that holds a queue every call has exactly one outcome
(`Holds.callAlone_iff`), and the buffer then holds the queue after the call (`Holds.afterCall`).
-/

set_option autoImplicit false
set_option relaxedAutoImplicit false

namespace SyncPrimitives.RingBuffer

open Concurrency Function Relation StateTransition

variable {α : Type}

/-- What a call does to a queue of at most `N` values, and what it returns. -/
def fifoCall (N : ℕ) (queue : List α) : Method α → List α × Result α
  | .push value | .tryPush value =>
    if queue.length < N then (queue ++ [value], .pushed (.ok ()))
    else (queue, .pushed (.error value))
  | .pop | .tryPop =>
    match queue with
    | [] => ([], .popped none)
    | value :: rest => (rest, .popped (some (some value)))

/-- The bounded queue as an object. -/
def fifo (N : ℕ) (α : Type) : Object (List α) (Method α) (Result α) where
  call := fun queue method queue' result ↦ fifoCall N queue method = (queue', result)

/-- A ring buffer that holds a queue, after a call. -/
def Shared.afterCall (N : ℕ) (s : Shared α) (queue : List α) : Method α → Shared α
  | .push value | .tryPush value => if queue.length < N then s.store N value else s
  | .pop | .tryPop =>
    match queue with
    | [] => s
    | value :: _ => s.release (some value)

section Calls

variable {N : ℕ} {s s' : Shared α} {queue : List α} {value : α} {method : Method α}
  {result : Result α}

/-- The outcome of a push, which returns a push result. -/
theorem pushWith_iff {retry : Bool} {pushed : Except α Unit} (h : Holds N s queue)
    (hN : N < 2 ^ 64) :
    (s', .returned pushed) ∈
        eval (runAlone fun s ↦ pushWith N s retry) (s, .running (.loadTail value)) ↔
      s' = s.afterCall N queue (.push value) ∧
        Result.pushed pushed = (fifoCall N queue (.push value)).2 := by
  constructor
  · intro hends
    rcases pushWith_cases h hN hends with ⟨hroom, rfl, rfl⟩ | ⟨hfull, rfl, rfl⟩
    · simp [Shared.afterCall, fifoCall, hroom]
    · simp [Shared.afterCall, fifoCall, Nat.not_lt.mpr hfull]
  · rintro ⟨rfl, hpushed⟩
    by_cases hroom : queue.length < N
    · simp only [Shared.afterCall, fifoCall, hroom, if_true, Result.pushed.injEq] at hpushed ⊢
      rw [hpushed]
      exact ends_of_reaches (pushWith_room retry value h hN hroom)
    · simp only [Shared.afterCall, fifoCall, hroom, if_false, Result.pushed.injEq] at hpushed ⊢
      rw [hpushed]
      exact ends_of_reaches (pushWith_full retry value h hN (Nat.not_lt.mp hroom))

/-- The outcome of a pop that computes the slot of the push. -/
theorem popWith_iff {slot : ℕ → ℕ} {retry : Bool} {popped : Option (MaybeUninit α)}
    (h : Holds N s queue) (hN : N < 2 ^ 64) (hslot : slot s.tail = s.tail % N) :
    (s', .returned popped) ∈
        eval (runAlone fun s ↦ popWith s slot retry) (s, .running .loadTail) ↔
      s' = s.afterCall N queue .pop ∧ Result.popped popped = (fifoCall N queue .pop).2 := by
  cases queue with
  | nil =>
    constructor
    · intro hends
      obtain ⟨rfl, rfl⟩ := ends_unique (popWith_empty retry slot h hN) hends
      exact ⟨rfl, rfl⟩
    · rintro ⟨rfl, hpopped⟩
      obtain rfl := Result.popped.inj hpopped
      exact ends_of_reaches (popWith_empty retry slot h hN)
  | cons oldest rest =>
    constructor
    · intro hends
      obtain ⟨rfl, rfl⟩ := ends_unique (popWith_oldest retry h hN hslot) hends
      exact ⟨rfl, rfl⟩
    · rintro ⟨rfl, hpopped⟩
      obtain rfl := Result.popped.inj hpopped
      exact ends_of_reaches (popWith_oldest retry h hN hslot)

/-- A call on a ring buffer that holds a queue has one outcome: it returns what the call on the
queue returns. -/
theorem Holds.callAlone_iff (h : Holds N s queue) (hN : PowerOfTwo N) :
    CallAlone N s method s' result ↔
      s' = s.afterCall N queue method ∧ result = (fifoCall N queue method).2 := by
  cases method <;> cases result
  case push.pushed => exact pushWith_iff h hN.lt
  case tryPush.pushed => exact pushWith_iff h hN.lt
  case pop.popped => exact popWith_iff h hN.lt (hN.and_sub_one s.tail)
  case tryPop.popped => exact popWith_iff h hN.lt rfl
  -- a push does not return the result of a pop, nor a pop that of a push
  case push.popped | tryPush.popped =>
    refine iff_of_false id fun ⟨_, hresult⟩ ↦ ?_
    simp only [fifoCall] at hresult
    split_ifs at hresult
  case pop.pushed | tryPop.pushed =>
    refine iff_of_false id fun ⟨_, hresult⟩ ↦ ?_
    cases queue <;> cases hresult

/-- The queue held after a call is the queue after the call. -/
theorem Holds.afterCall (h : Holds N s queue) (hN : PowerOfTwo N) (method : Method α) :
    Holds N (s.afterCall N queue method) (fifoCall N queue method).1 := by
  have hpush (value : α) :
      Holds N (s.afterCall N queue (.push value)) (fifoCall N queue (.push value)).1 := by
    by_cases hroom : queue.length < N
    · simp only [Shared.afterCall, fifoCall, hroom, if_true]
      exact h.store hroom (h.fresh hN hroom)
    · simp only [Shared.afterCall, fifoCall, hroom, if_false]
      exact h
  have hpop : Holds N (s.afterCall N queue .pop) (fifoCall N queue .pop).1 := by
    cases queue with
    | nil => exact h
    | cons oldest rest => exact h.release (some oldest)
  cases method with
  | push value => exact hpush value
  | tryPush value => exact hpush value
  | pop => exact hpop
  | tryPop => exact hpop

/-- `push` and `try_push` do the same, and so do `pop` and `try_pop`. -/
theorem Holds.try_iff (h : Holds N s queue) (hN : PowerOfTwo N) :
    (∀ value, CallAlone N s (.push value) s' result ↔ CallAlone N s (.tryPush value) s' result) ∧
      (CallAlone N s .pop s' result ↔ CallAlone N s .tryPop s' result) := by
  simp only [h.callAlone_iff hN]
  exact ⟨fun _ ↦ Iff.rfl, Iff.rfl⟩

/-! ### Sequences of calls -/

variable {calls : List (Method α)} {results : List (Result α)}

/-- An empty buffer, whatever the word is at which it starts, holds the empty queue. -/
theorem holds_empty (hword : s.tail < 2 ^ 64) (hempty : s.head = s.tail) : Holds N s [] where
  size := Nat.zero_le N
  tail := hword
  head := by rw [hempty, List.length_nil, Nat.add_zero, Nat.mod_eq_of_lt hword]
  slots := nofun

/-- Calls on a ring buffer return what they return on the queue it holds. -/
theorem Holds.runs_fifo (h : Holds N s queue) (hN : PowerOfTwo N)
    (hruns : (ringBuffer N α).Runs (fun _ _ ↦ True) s calls s' results) :
    ∃ queue', (fifo N α).Runs (fun _ _ ↦ True) queue calls queue' results ∧
      Holds N s' queue' := by
  refine hruns.simulate (R := fun s queue ↦ Holds N s queue) ?_ h
  intro s queue method s' result h _ hcall
  obtain ⟨rfl, rfl⟩ := (h.callAlone_iff hN).mp hcall
  exact ⟨trivial, (fifoCall N queue method).1, rfl, h.afterCall hN method⟩

/-- Calls on the queue return what they return on a ring buffer that holds it. -/
theorem Holds.runs_ring (h : Holds N s queue) (hN : PowerOfTwo N) {queue' : List α}
    (hruns : (fifo N α).Runs (fun _ _ ↦ True) queue calls queue' results) :
    ∃ s', (ringBuffer N α).Runs (fun _ _ ↦ True) s calls s' results ∧ Holds N s' queue' := by
  refine hruns.simulate (R := fun queue s ↦ Holds N s queue) ?_ h
  intro queue s method queue' result h _ hcall
  have hqueue : fifoCall N queue method = (queue', result) := hcall
  have hafter := h.afterCall hN method
  rw [hqueue] at hafter
  refine ⟨trivial, s.afterCall N queue method, (h.callAlone_iff hN).mpr ⟨rfl, ?_⟩, hafter⟩
  rw [hqueue]

/-- Every sequence of calls on the queue has one outcome. -/
theorem exists_runs_fifo (N : ℕ) (calls : List (Method α)) (queue : List α) :
    ∃ queue' results, (fifo N α).Runs (fun _ _ ↦ True) queue calls queue' results := by
  induction calls generalizing queue with
  | nil => exact ⟨queue, [], .nil⟩
  | cons method calls ih =>
    obtain ⟨queue', results, hrest⟩ := ih (fifoCall N queue method).1
    exact ⟨queue', (fifoCall N queue method).2 :: results, .cons trivial rfl hrest⟩

theorem runs_fifo_unique {queue₁ queue₂ : List α} {results₁ results₂ : List (Result α)}
    (h₁ : (fifo N α).Runs (fun _ _ ↦ True) queue calls queue₁ results₁)
    (h₂ : (fifo N α).Runs (fun _ _ ↦ True) queue calls queue₂ results₂) : results₁ = results₂ := by
  refine (h₁.unique (fun queue method queue₁ queue₂ result₁ result₂ hcall₁ hcall₂ ↦ ?_) h₂).2
  exact Prod.mk.inj (Eq.trans (Eq.symm hcall₁) hcall₂)

/-- Complete calls on a ring buffer that starts with `head == tail` at any word return exactly what
they return on the list of at most `N` values: every sequence of calls has one list of results, the
same for both. In every state between the calls `push` and `try_push` return and leave the same, and
so do `pop` and `try_pop`. -/
theorem ring_refines_fifo (hN : PowerOfTwo N) {s : Shared α} (hword : s.tail < 2 ^ 64)
    (hempty : s.head = s.tail) :
    (∀ calls, ∃ results, ∀ results',
      ((∃ s', (ringBuffer N α).Runs (fun _ _ ↦ True) s calls s' results') ↔ results' = results) ∧
      ((∃ queue, (fifo N α).Runs (fun _ _ ↦ True) [] calls queue results') ↔
        results' = results)) ∧
    ∀ calls s' results, (ringBuffer N α).Runs (fun _ _ ↦ True) s calls s' results →
      ∀ s'' result,
        (∀ value, CallAlone N s' (.push value) s'' result ↔
          CallAlone N s' (.tryPush value) s'' result) ∧
        (CallAlone N s' .pop s'' result ↔ CallAlone N s' .tryPop s'' result) := by
  have h : Holds N s [] := holds_empty hword hempty
  constructor
  · intro calls
    obtain ⟨queue, results, hfifo⟩ := exists_runs_fifo N calls []
    obtain ⟨s', hring, -⟩ := h.runs_ring hN hfifo
    refine ⟨results, fun results' ↦ ⟨⟨?_, ?_⟩, ?_, ?_⟩⟩
    · rintro ⟨_, hruns⟩
      obtain ⟨_, hruns', -⟩ := h.runs_fifo hN hruns
      exact runs_fifo_unique hruns' hfifo
    · rintro rfl
      exact ⟨s', hring⟩
    · rintro ⟨_, hruns⟩
      exact runs_fifo_unique hruns hfifo
    · rintro rfl
      exact ⟨queue, hfifo⟩
  · intro calls s' results hruns s'' result
    obtain ⟨queue, -, hheld⟩ := h.runs_fifo hN hruns
    exact hheld.try_iff hN

/-- Calls that push past the capacity and pop past the end, and what they return. -/
def wrapCalls : List (Method ℕ) :=
  [.push 5, .tryPush 6, .push 7, .pop, .push 8, .tryPop, .pop, .tryPop]

def wrapResults : List (Result ℕ) :=
  [.pushed (.ok ()), .pushed (.ok ()), .pushed (.error 7), .popped (some (some 5)),
    .pushed (.ok ()), .popped (some (some 6)), .popped (some (some 8)), .popped none]

/-- `ring_refines_fifo` at the last word before the indices wrap around. -/
theorem ring_refines_fifo_last_word :
    (∃ s', (ringBuffer 2 ℕ).Runs (fun _ _ ↦ True)
        { Shared.new ℕ with head := 2 ^ 64 - 1, tail := 2 ^ 64 - 1 } wrapCalls s' wrapResults) ∧
      ∃ queue, (fifo 2 ℕ).Runs (fun _ _ ↦ True) [] wrapCalls queue wrapResults := by
  have hfifo : ∃ queue, (fifo 2 ℕ).Runs (fun _ _ ↦ True) [] wrapCalls queue wrapResults :=
    ⟨[], .cons trivial rfl (.cons trivial rfl (.cons trivial rfl (.cons trivial rfl
      (.cons trivial rfl (.cons trivial rfl (.cons trivial rfl (.cons trivial rfl .nil)))))))⟩
  have hsize : PowerOfTwo 2 := ⟨1, by decide, rfl⟩
  obtain ⟨results, hresults⟩ := (ring_refines_fifo hsize
    (s := { Shared.new ℕ with head := 2 ^ 64 - 1, tail := 2 ^ 64 - 1 }) (by decide) rfl).1 wrapCalls
  exact ⟨(hresults wrapResults).1.mpr ((hresults wrapResults).2.mp hfifo), hfifo⟩

end Calls

end SyncPrimitives.RingBuffer
