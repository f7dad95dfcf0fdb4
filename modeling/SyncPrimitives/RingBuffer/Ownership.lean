import SyncPrimitives.RingBuffer.Queue

/-!
# Who owns a pushed value

Calls of a ring buffer run one after the other, and then the buffer is dropped. Every value whose
push has returned `Ok` is owned once: it is returned by one pop or it is dropped by `Drop`
(`OwnedOnce`), and that in the order of the pushes (`OwnedInOrder`).

`push`, `try_push` and `try_pop` compute the slot of a position with `% N`, `pop` and `Drop` with `&
(N - 1)`. As long as the two agree where they are used (`SlotsAgree`, `DropAgrees`), every value is
owned once, whatever `N` is. They agree everywhere if and only if `N` is a power of two
(`slots_agree_iff`). `new` accepts every even `N`, and for each other one there are calls that
return a value twice (`popped_twice`). `Drop` visits the positions from the word `tail` up to the
word `head`, so with a power of two the values are owned once if and only if `head` has not wrapped
around past `tail`.
-/

set_option autoImplicit false
set_option relaxedAutoImplicit false

namespace SyncPrimitives.RingBuffer

open Concurrency Function Relation StateTransition

variable {α Pc Ret : Type}

/-! ### Calls run one at a time -/

/-- The results of the calls. -/
inductive Result (α : Type)
  | pushed (ret : Except α Unit)
  | popped (ret : Option (MaybeUninit α))

/-- A call that runs alone to its end. -/
def CallAlone (N : ℕ) (s : Shared α) : Method α → Shared α → Result α → Prop
  | .push value, s', .pushed ret =>
    (s', .returned ret) ∈ eval (runAlone (pushStep N)) (s, .running (.loadTail value))
  | .tryPush value, s', .pushed ret =>
    (s', .returned ret) ∈ eval (runAlone (tryPushStep N)) (s, .running (.loadTail value))
  | .pop, s', .popped ret =>
    (s', .returned ret) ∈ eval (runAlone (popStep N)) (s, .running .loadTail)
  | .tryPop, s', .popped ret =>
    (s', .returned ret) ∈ eval (runAlone (tryPopStep N)) (s, .running .loadTail)
  | _, _, _ => False

/-- The ring buffer as an object. -/
def ringBuffer (N : ℕ) (α : Type) : Object (Shared α) (Method α) (Result α) where
  call := CallAlone N

/-- The value that a call has put into the buffer. -/
def accept : Method α × Result α → Option α
  | (.push value, .pushed (.ok ())) => some value
  | (.tryPush value, .pushed (.ok ())) => some value
  | _ => none

/-- The values that the calls have put into the buffer. -/
def accepted (calls : List (Method α)) (results : List (Result α)) : List α :=
  (calls.zip results).filterMap accept

/-- What a call has read out of the buffer. -/
def Result.read : Result α → Option (MaybeUninit α)
  | .popped ret => ret
  | .pushed _ => none

/-- What the calls have read out of the buffer. -/
def reads (results : List (Result α)) : List (MaybeUninit α) :=
  results.filterMap Result.read

/-- `Drop for RingBuffer`: what it drops, in the slots of the indices from `tail` to `head`. -/
def dropped (N : ℕ) (s : Shared α) : List (MaybeUninit α) :=
  (List.range' s.tail (s.head - s.tail)).map fun idx ↦ s.buffer (idx &&& (N - 1))

/-- Every accepted value is returned by one pop or dropped once, and nothing else is read. -/
def OwnedOnce (N : ℕ) (s : Shared α) (calls : List (Method α)) (results : List (Result α)) : Prop :=
  (reads results ++ dropped N s).Perm ((accepted calls results).map some)

/-- Besides, every position hands on the value that has been accepted for it. -/
def OwnedInOrder (N : ℕ) (s : Shared α) (calls : List (Method α)) (results : List (Result α)) :
    Prop :=
  reads results ++ dropped N s = (accepted calls results).map some

/-- A push finds a slot that no held position has, and a pop finds the slot of the push. -/
def SlotsAgree (N : ℕ) (s : Shared α) : Method α → Prop
  | .push _ | .tryPush _ =>
    subUsize s.head s.tail < N → Fresh N s (subUsize s.head s.tail)
  | .pop => s.head ≠ s.tail → s.tail &&& (N - 1) = s.tail % N
  | .tryPop => True

/-- `Drop` visits the held positions, and finds the slots of the pushes. -/
def DropAgrees (N : ℕ) (s : Shared α) : Prop :=
  s.tail ≤ s.head ∧ ∀ idx, s.tail ≤ idx → idx < s.head → idx &&& (N - 1) = idx % N

section Calls

variable {N : ℕ} {s s' : Shared α} {queue : List α} {value : α} {method : Method α}
  {result : Result α} {access : Shared α → Pc → Access → Option (Shared α × Progress Pc Ret)}
  {begun : Shared α × Progress Pc Ret} {ret ret' : Ret} {after : Shared α}

theorem ends_of_reaches (h : Reaches (runAlone access) begun (after, .returned ret)) :
    (after, .returned ret) ∈ eval (runAlone access) begun :=
  mem_eval.mpr ⟨h, rfl⟩

/-- A call that runs alone has one outcome. -/
theorem ends_unique (h : Reaches (runAlone access) begun (after, .returned ret))
    (h' : (s', .returned ret') ∈ eval (runAlone access) begun) : s' = after ∧ ret' = ret := by
  have hsame := Part.mem_unique h' (ends_of_reaches h)
  simpa using hsame

/-- What a push returns and leaves. -/
theorem pushWith_cases {retry : Bool} {pushed : Except α Unit} (h : Holds N s queue)
    (hN : N < 2 ^ 64)
    (hends : (s', .returned pushed) ∈
      eval (runAlone fun s ↦ pushWith N s retry) (s, .running (.loadTail value))) :
    (queue.length < N ∧ s' = s.store N value ∧ pushed = .ok ()) ∨
      (N ≤ queue.length ∧ s' = s ∧ pushed = .error value) := by
  rcases Nat.lt_or_ge queue.length N with hroom | hfull
  · exact .inl ⟨hroom, ends_unique (pushWith_room retry value h hN hroom) hends⟩
  · exact .inr ⟨hfull, ends_unique (pushWith_full retry value h hN hfull) hends⟩

/-- What a pop returns and leaves, if it computes the slot of the push. -/
theorem popWith_cases {slot : ℕ → ℕ} {retry : Bool} {popped : Option (MaybeUninit α)}
    (h : Holds N s queue) (hN : N < 2 ^ 64) (hslot : s.head ≠ s.tail → slot s.tail = s.tail % N)
    (hends : (s', .returned popped) ∈
      eval (runAlone fun s ↦ popWith s slot retry) (s, .running .loadTail)) :
    (queue = [] ∧ s' = s ∧ popped = none) ∨
      ∃ value rest, queue = value :: rest ∧ s' = s.release (some value) ∧
        popped = some (some value) := by
  cases queue with
  | nil => exact .inl ⟨rfl, ends_unique (popWith_empty retry slot h hN) hends⟩
  | cons value rest =>
    have hne : s.head ≠ s.tail := mt (h.head_eq_tail_iff hN).mp (List.cons_ne_nil _ _)
    exact .inr ⟨value, rest, rfl,
      ends_unique (popWith_oldest retry h hN (hslot hne)) hends⟩

/-- What a call reads comes off the front of the queue, and what it accepts goes to the end. -/
def Passes (queue queue' : List α) (method : Method α) (result : Result α) : Prop :=
  result.read.toList ++ queue'.map some =
    queue.map some ++ (accept (method, result)).toList.map some

theorem accept_tryPush (pushed : Except α Unit) :
    accept (.tryPush value, .pushed pushed) = accept (.push value, .pushed pushed) := by
  cases pushed <;> rfl

/-- The queue after a push. -/
theorem Holds.call_push {retry : Bool} {pushed : Except α Unit} (h : Holds N s queue)
    (hN : N < 2 ^ 64) (hfresh : subUsize s.head s.tail < N → Fresh N s (subUsize s.head s.tail))
    (hends : (s', .returned pushed) ∈
      eval (runAlone fun s ↦ pushWith N s retry) (s, .running (.loadTail value))) :
    ∃ queue', Holds N s' queue' ∧ Passes queue queue' (.push value) (.pushed pushed) := by
  rw [h.used hN] at hfresh
  rcases pushWith_cases h hN hends with ⟨hroom, rfl, rfl⟩ | ⟨-, rfl, rfl⟩
  · exact ⟨queue ++ [value], h.store hroom (hfresh hroom), by simp [Passes, Result.read, accept]⟩
  · exact ⟨queue, h, by simp [Passes, Result.read, accept]⟩

/-- The queue after a pop. -/
theorem Holds.call_pop (slot : ℕ → ℕ) {retry : Bool} {popped : Option (MaybeUninit α)}
    (h : Holds N s queue) (hN : N < 2 ^ 64) (hslot : s.head ≠ s.tail → slot s.tail = s.tail % N)
    (hends : (s', .returned popped) ∈
      eval (runAlone fun s ↦ popWith s slot retry) (s, .running .loadTail)) :
    ∃ queue', Holds N s' queue' ∧ Passes queue queue' .pop (.popped popped) := by
  rcases popWith_cases h hN hslot hends with ⟨rfl, rfl, rfl⟩ | ⟨value, rest, rfl, rfl, rfl⟩
  · exact ⟨[], h, by simp [Passes, Result.read, accept]⟩
  · exact ⟨rest, h.release (some value), by simp [Passes, Result.read, accept]⟩

/-- The queue after a call. -/
theorem Holds.call (h : Holds N s queue) (hN : N < 2 ^ 64) (hagree : SlotsAgree N s method)
    (hcall : CallAlone N s method s' result) :
    ∃ queue', Holds N s' queue' ∧ Passes queue queue' method result := by
  cases method <;> cases result <;> try exact hcall.elim
  case push.pushed => exact h.call_push hN hagree hcall
  case tryPush.pushed =>
    simp only [Passes, accept_tryPush]
    exact h.call_push hN hagree hcall
  case pop.popped => exact h.call_pop (· &&& (N - 1)) hN hagree hcall
  case tryPop.popped => exact h.call_pop (· % N) hN (fun _ ↦ rfl) hcall

/-! ### Sequences of calls -/

variable {calls : List (Method α)} {results : List (Result α)}

/-- What has been read and the queue are what was in the queue and has been accepted. -/
theorem Holds.runs (hN : N < 2 ^ 64)
    (hruns : (ringBuffer N α).Runs (SlotsAgree N) s calls s' results) (h : Holds N s queue) :
    ∃ queue', Holds N s' queue' ∧
      reads results ++ queue'.map some = queue.map some ++ (accepted calls results).map some := by
  induction hruns generalizing queue with
  | nil => exact ⟨queue, h, by simp [reads, accepted]⟩
  | @cons before middle after method calls result results hagree hcall _ ih =>
    obtain ⟨queue₁, h₁, hpasses⟩ := h.call hN hagree hcall
    obtain ⟨queue₂, h₂, hrest⟩ := ih h₁
    have hreads : reads (result :: results) = result.read.toList ++ reads results := by
      cases hread : result.read <;> simp [reads, hread]
    have haccepted : accepted (method :: calls) (result :: results) =
        (accept (method, result)).toList ++ accepted calls results := by
      cases haccept : accept (method, result) <;> simp [accepted, haccept]
    refine ⟨queue₂, h₂, ?_⟩
    rw [hreads, haccepted, List.append_assoc, hrest, ← List.append_assoc, hpasses,
      List.map_append, List.append_assoc]

/-- What `Drop` visits, if `head` has not wrapped around past `tail`. -/
theorem Holds.length_eq (h : Holds N s queue) (hN : N < 2 ^ 64) (hle : s.tail ≤ s.head) :
    s.head - s.tail = queue.length := by
  have hsize := h.size
  have htail := h.tail
  have hhead := h.head
  omega

/-- `Drop` drops the queue. -/
theorem Holds.dropped_eq (h : Holds N s queue) (hN : N < 2 ^ 64) (hdrop : DropAgrees N s) :
    dropped N s = queue.map some := by
  have hlength := h.length_eq hN hdrop.1
  have hhead : s.head < 2 ^ 64 := h.head ▸ Nat.mod_lt _ (Nat.two_pow_pos 64)
  refine List.ext_getElem (by simp [dropped, hlength]) fun i hi hi' ↦ ?_
  have hqueue : i < queue.length := by simpa using hi'
  have hidx : s.tail + i < s.head := by omega
  have hslot := h.slots i queue[i] (List.getElem?_eq_getElem hqueue)
  have hagree := hdrop.2 (s.tail + i) (Nat.le_add_right _ _) hidx
  rw [Nat.mod_eq_of_lt (hidx.trans hhead), ← hagree] at hslot
  simpa [dropped] using hslot

/-- A `Drop` that misses values leaves them without an owner. -/
theorem Holds.le_of_length (h : Holds N s queue) (hlength : (dropped N s).length = queue.length) :
    s.tail ≤ s.head := by
  have hsize := h.size
  have htail := h.tail
  have hhead := h.head
  simp only [dropped, List.length_map, List.length_range'] at hlength
  by_contra hlt
  have hempty : queue.length = 0 := by omega
  omega

/-- Every value is owned once, in the order of the pushes. Assumes: the slots agree at every call
and in `Drop`. -/
theorem ownedInOrder_of_agree (hN : N < 2 ^ 64)
    (hruns : (ringBuffer N α).Runs (SlotsAgree N) (Shared.new α) calls s results)
    (hdrop : DropAgrees N s) : OwnedInOrder N s calls results := by
  obtain ⟨queue, h, howned⟩ := holds_new.runs hN hruns
  rw [OwnedInOrder, h.dropped_eq hN hdrop]
  exact howned

/-! ### A power of two -/

/-- With a power of two, or without slots, the slots agree at every call. -/
theorem Holds.slotsAgree (h : Holds N s queue) (hN : N < 2 ^ 64) (hpow : N = 0 ∨ PowerOfTwo N)
    (method : Method α) : SlotsAgree N s method := by
  have hfresh (hroom : subUsize s.head s.tail < N) : Fresh N s (subUsize s.head s.tail) := by
    rw [h.used hN] at hroom ⊢
    exact h.fresh (hpow.resolve_left (by omega)) hroom
  cases method with
  | push value => exact hfresh
  | tryPush value => exact hfresh
  | tryPop => trivial
  | pop =>
    intro hne
    rcases hpow with rfl | hpow
    · exact absurd ((h.head_eq_tail_iff hN).mpr (List.length_eq_zero_iff.mp
        (Nat.le_zero.mp h.size))) hne
    · exact hpow.and_sub_one s.tail

/-- With a power of two, or without slots, the slots agree in every sequence of calls. -/
theorem runs_slotsAgree (hN : N < 2 ^ 64) (hpow : N = 0 ∨ PowerOfTwo N)
    (hruns : (ringBuffer N α).Runs (fun _ _ ↦ True) (Shared.new α) calls s results) :
    (ringBuffer N α).Runs (SlotsAgree N) (Shared.new α) calls s results := by
  have hsimulated : ∃ a, (ringBuffer N α).Runs (SlotsAgree N) (Shared.new α) calls a results ∧
      (s = a ∧ ∃ queue, Holds N s queue) := by
    refine hruns.simulate (R := fun s a ↦ s = a ∧ ∃ queue, Holds N s queue) ?_
      ⟨rfl, [], holds_new⟩
    rintro s _ method s' result ⟨rfl, queue, h⟩ - hcall
    have hagree := h.slotsAgree hN hpow method
    obtain ⟨queue', h', -⟩ := h.call hN hagree hcall
    exact ⟨hagree, s', hcall, rfl, queue', h'⟩
  obtain ⟨_, hagree, rfl, -⟩ := hsimulated
  exact hagree

/-- With a power of two the slots agree in `Drop`, and without slots it visits none. -/
theorem Holds.dropAgrees (h : Holds N s queue) (hN : N < 2 ^ 64) (hpow : N = 0 ∨ PowerOfTwo N)
    (hle : s.tail ≤ s.head) : DropAgrees N s := by
  refine ⟨hle, fun idx hfrom hto ↦ ?_⟩
  rcases hpow with rfl | hpow
  · have hlength := h.length_eq hN hle
    have hsize := h.size
    omega
  · exact hpow.and_sub_one idx

/-- With a power of two, or without slots, the values are owned once in the order of the pushes.
Assumes: `head` has not wrapped around past `tail` when the buffer is dropped. -/
theorem ownedInOrder_of_le (hN : N < 2 ^ 64) (hpow : N = 0 ∨ PowerOfTwo N)
    (hruns : (ringBuffer N α).Runs (fun _ _ ↦ True) (Shared.new α) calls s results)
    (hle : s.tail ≤ s.head) : OwnedInOrder N s calls results := by
  have hagree := runs_slotsAgree hN hpow hruns
  obtain ⟨queue, h, -⟩ := holds_new.runs hN hagree
  exact ownedInOrder_of_agree hN hagree (h.dropAgrees hN hpow hle)

/-- If `head` has wrapped around past `tail`, then `Drop` misses values. -/
theorem le_of_ownedOnce (hN : N < 2 ^ 64) (hpow : N = 0 ∨ PowerOfTwo N)
    (hruns : (ringBuffer N α).Runs (fun _ _ ↦ True) (Shared.new α) calls s results)
    (honce : OwnedOnce N s calls results) : s.tail ≤ s.head := by
  obtain ⟨queue, h, howned⟩ := holds_new.runs hN (runs_slotsAgree hN hpow hruns)
  have hlength : (reads results ++ dropped N s).length =
      (reads results ++ queue.map some).length := by
    rw [honce.length_eq, howned]
    rfl
  simp only [List.length_append, List.length_map] at hlength
  exact h.le_of_length (Nat.add_left_cancel hlength)

/-! ### Every other number of slots -/

/-- Without a power of two there is a position of the first lap on which the slots disagree. -/
theorem exists_disagreement (hpos : 0 < N) (hN : N < 2 ^ 64) (hpow : ¬ PowerOfTwo N) :
    ∃ p, p < N ∧ p &&& (N - 1) ≠ p := by
  have hle : 2 ^ N.log2 ≤ N := Nat.log2_self_le hpos.ne'
  have hlt : N < 2 ^ (N.log2 + 1) := Nat.lt_log2_self
  have hlog : N.log2 < 64 := (Nat.pow_lt_pow_iff_right (by decide)).mp (hle.trans_lt hN)
  have hne : N ≠ 2 ^ N.log2 := fun heq ↦ hpow ⟨N.log2, hlog, heq⟩
  -- The complement of `N - 1` has no bit in common with it.
  refine ⟨2 ^ (N.log2 + 1) - (N - 1 + 1), by omega, ?_⟩
  have hcommon : (2 ^ (N.log2 + 1) - (N - 1 + 1)) &&& (N - 1) = 0 := by
    refine Nat.eq_of_testBit_eq fun i ↦ ?_
    rw [Nat.testBit_and, Nat.testBit_two_pow_sub_succ (by omega)]
    cases (N - 1).testBit i <;> simp
  omega

/-- The slots of all positions agree if and only if the number of slots is a power of two. -/
theorem slots_agree_iff (hpos : 0 < N) (hN : N < 2 ^ 64) :
    (∀ p, p < 2 ^ 64 → p &&& (N - 1) = p % N) ↔ PowerOfTwo N := by
  refine ⟨fun hagree ↦ ?_, fun hpow p _ ↦ hpow.and_sub_one p⟩
  by_contra hpow
  obtain ⟨p, hp, hne⟩ := exists_disagreement hpos hN hpow
  rw [hagree p (hp.trans hN), Nat.mod_eq_of_lt hp] at hne
  exact hne rfl

/-- Pushes into the first lap. -/
theorem Holds.pushes (hN : N < 2 ^ 64) (values : List α) (h : Holds N s queue)
    (hlap : s.tail + queue.length + values.length ≤ N) :
    ∃ s', (ringBuffer N α).Runs (fun _ _ ↦ True) s (values.map .push) s'
        (values.map fun _ ↦ .pushed (.ok ())) ∧
      Holds N s' (queue ++ values) ∧ s'.tail = s.tail := by
  induction values generalizing s queue with
  | nil => exact ⟨s, .nil, by rwa [List.append_nil], rfl⟩
  | cons value values ih =>
    rw [List.length_cons] at hlap
    have hhead : s.head = s.tail + queue.length := by
      rw [h.head, Nat.mod_eq_of_lt (by omega)]
    have hfresh : Fresh N s queue.length := by
      intro i hi
      rw [hhead, Nat.mod_eq_of_lt (by omega), Nat.mod_eq_of_lt (by omega),
        Nat.mod_eq_of_lt (by omega)]
      omega
    have hstored : Holds N (s.store N value) (queue ++ [value]) := h.store (by omega) hfresh
    have hlap' : s.tail + (queue ++ [value]).length + values.length ≤ N := by
      rw [List.length_append, List.length_singleton]
      omega
    obtain ⟨s', hrest, h', htail⟩ := ih hstored hlap'
    have hcall : CallAlone N s (.push value) (s.store N value) (.pushed (.ok ())) :=
      ends_of_reaches (pushWith_room true value h hN (by omega))
    exact ⟨s', .cons trivial hcall hrest, by rwa [List.append_assoc] at h', htail⟩

/-- Pops from the positions of the first lap on which the slots agree. -/
theorem Holds.pops (hN : N < 2 ^ 64) (values : List α) (h : Holds N s (values ++ queue))
    (hlap : s.tail + values.length < N)
    (hagree : ∀ p, p < s.tail + values.length → p &&& (N - 1) = p) :
    ∃ s', (ringBuffer N α).Runs (fun _ _ ↦ True) s (values.map fun _ ↦ .pop) s'
        (values.map fun value ↦ .popped (some (some value))) ∧
      Holds N s' queue ∧ s'.tail = s.tail + values.length ∧ s'.buffer = s.buffer := by
  induction values generalizing s with
  | nil => exact ⟨s, .nil, h, rfl, rfl⟩
  | cons value values ih =>
    rw [List.length_cons] at hlap hagree
    have hslot : s.tail &&& (N - 1) = s.tail % N := by
      rw [hagree s.tail (by omega), Nat.mod_eq_of_lt (by omega)]
    have htail : (s.release (some value)).tail = s.tail + 1 := addUsize_of_lt (by omega)
    obtain ⟨s', hrest, h', htail', hbuffer⟩ := ih (h.release (some value)) (by omega)
      (fun p hp ↦ hagree p (by omega))
    have hruns : Reaches (runAlone fun s ↦ popWith s (· &&& (N - 1)) true)
        (s, .running .loadTail) (s.release (some value), .returned (some (some value))) :=
      popWith_oldest true h hN hslot
    have hcall : CallAlone N s .pop (s.release (some value)) (.popped (some (some value))) :=
      ends_of_reaches hruns
    refine ⟨s', .cons trivial hcall hrest, h', ?_, hbuffer⟩
    rw [htail', htail, List.length_cons]
    omega

/-- The calls that push one value at each position before `p` and another at `p`, and pop them
all. -/
def lapCalls (p : ℕ) (a b : α) : List (Method α) :=
  (List.replicate p a ++ [b]).map .push ++ ((List.replicate p a).map (fun _ ↦ .pop) ++ [.pop])

/-- Their results if the last pop returns `last`. -/
def lapResults (p : ℕ) (a b last : α) : List (Result α) :=
  (List.replicate p a ++ [b]).map (fun _ ↦ .pushed (.ok ())) ++
    ((List.replicate p a).map (fun value ↦ .popped (some (some value))) ++
      [.popped (some (some last))])

/-- At the first position on which the slots disagree a pop returns a value a second time. -/
theorem popped_twice (hN : N < 2 ^ 64) {p : ℕ} (hp : p < N)
    (hagree : ∀ i, i < p → i &&& (N - 1) = i) (hne : p &&& (N - 1) ≠ p) (a b : α) :
    ∃ s, (ringBuffer N α).Runs (fun _ _ ↦ True) (Shared.new α) (lapCalls p a b) s
      (lapResults p a b a) ∧ s.head = s.tail := by
  have hslot : p &&& (N - 1) < p := lt_of_le_of_ne Nat.and_le_left hne
  have hlength : (List.replicate p a).length = p := List.length_replicate
  obtain ⟨s₁, hpushes, h₁, htail₁⟩ := holds_new.pushes hN (List.replicate p a ++ [b])
    (by simpa [Shared.new] using Nat.succ_le_of_lt hp)
  have hzero : s₁.tail = 0 := htail₁
  -- The slot that the last pop will read holds `a`, and the pops before it leave it there.
  have hfound : s₁.buffer (p &&& (N - 1)) = some a := by
    have hentry := h₁.slots (p &&& (N - 1)) a (by
      rw [List.nil_append, List.getElem?_append_left (by rwa [hlength])]
      exact List.getElem?_replicate_of_lt hslot)
    rwa [hzero, Nat.zero_add, Nat.mod_eq_of_lt (by omega), Nat.mod_eq_of_lt (by omega)] at hentry
  obtain ⟨s₂, hpops, h₂, htail₂, hbuffer⟩ := Holds.pops hN (List.replicate p a) h₁
    (by omega) (by rwa [hzero, hlength, Nat.zero_add])
  have hlast : s₂.tail = p := by rw [htail₂, hzero, hlength, Nat.zero_add]
  have hread : s₂.buffer (s₂.tail &&& (N - 1)) = some a := by rw [hlast, hbuffer, hfound]
  have hnonempty : s₂.head ≠ s₂.tail := mt (h₂.head_eq_tail_iff hN).mp (List.cons_ne_nil _ _)
  have hpop := popWith_read true (· &&& (N - 1)) hnonempty
  rw [hread] at hpop
  have hcall : CallAlone N s₂ .pop (s₂.release (some a)) (.popped (some (some a))) :=
    ends_of_reaches hpop
  exact ⟨s₂.release (some a), hpushes.append (hpops.append (.cons trivial hcall .nil)),
    ((h₂.release (some a)).head_eq_tail_iff hN).mpr rfl⟩

theorem accepted_append {calls' : List (Method α)} {results' : List (Result α)}
    (h : calls.length = results.length) :
    accepted (calls ++ calls') (results ++ results') =
      accepted calls results ++ accepted calls' results' := by
  rw [accepted, List.zip_append h, List.filterMap_append]
  rfl

theorem accepted_pushes (values : List α) :
    accepted (values.map .push) (values.map fun _ ↦ .pushed (.ok ())) = values := by
  induction values with
  | nil => rfl
  | cons value values ih => exact congrArg (value :: ·) ih

theorem accepted_pops (values : List α) :
    accepted (values.map fun _ ↦ .pop)
      (values.map fun value ↦ .popped (some (some value))) = [] := by
  induction values with
  | nil => rfl
  | cons value values ih => exact ih

theorem reads_append {results' : List (Result α)} :
    reads (results ++ results') = reads results ++ reads results' :=
  List.filterMap_append

theorem reads_pushes (values : List α) :
    reads (values.map fun _ ↦ (.pushed (.ok ()) : Result α)) = [] := by
  induction values with
  | nil => rfl
  | cons value values ih => exact ih

theorem reads_pops (values : List α) :
    reads (values.map fun value ↦ .popped (some (some value))) = values.map some := by
  induction values with
  | nil => rfl
  | cons value values ih => exact congrArg (some value :: ·) ih

/-- A value that is returned twice is not owned once. -/
theorem not_ownedOnce_lap {p : ℕ} {a b : α} (hne : a ≠ b) (hempty : s.head = s.tail) :
    ¬ OwnedOnce N s (lapCalls p a b) (lapResults p a b a) := by
  intro honce
  have hreads : reads (lapResults p a b a) = (List.replicate p a ++ [a]).map some := by
    rw [lapResults, reads_append, reads_append, reads_pushes, reads_pops, List.map_append]
    rfl
  have haccepted : accepted (lapCalls p a b) (lapResults p a b a) = List.replicate p a ++ [b] := by
    rw [lapCalls, lapResults, accepted_append (by simp), accepted_append (by simp),
      accepted_pushes, accepted_pops]
    exact List.append_nil _
  have hdropped : dropped N s = [] := by
    rw [dropped, hempty, Nat.sub_self]
    rfl
  rw [OwnedOnce, hreads, haccepted, hdropped, List.append_nil] at honce
  have hmem : some b ∈ (List.replicate p a ++ [b]).map some := by simp
  have hread := honce.mem_iff.mpr hmem
  simp only [List.map_append, List.map_replicate, List.mem_append, List.mem_replicate,
    List.map_singleton, List.mem_singleton, Option.some.injEq] at hread
  exact hread.elim (fun heq ↦ hne heq.2.symm) fun heq ↦ hne heq.symm

/-- Without a power of two, some calls that never fill the first lap return a value twice. -/
theorem exists_not_ownedOnce [Nontrivial α] (hpos : 0 < N) (hN : N < 2 ^ 64)
    (hpow : ¬ PowerOfTwo N) :
    ∃ calls s results, (ringBuffer N α).Runs (fun _ _ ↦ True) (Shared.new α) calls s results ∧
      s.tail ≤ s.head ∧ ¬ OwnedOnce N s calls results := by
  classical
  obtain ⟨a, b, hab⟩ := exists_pair_ne α
  have hexists := exists_disagreement hpos hN hpow
  obtain ⟨hp, hne⟩ := Nat.find_spec hexists
  have hagree (i : ℕ) (hi : i < Nat.find hexists) : i &&& (N - 1) = i := by
    by_contra hnot
    exact Nat.find_min hexists hi ⟨hi.trans hp, hnot⟩
  obtain ⟨s, hruns, hempty⟩ := popped_twice hN hp hagree hne a b
  exact ⟨_, s, _, hruns, hempty.ge, not_ownedOnce_lap hab hempty⟩

end Calls

/-! ### Exact ownership -/

/-- As long as the slots agree every value is owned once, in the order of the pushes, for every
number of slots. With a power of two, or without slots, they agree in every sequence of calls, and
the values are owned once if and only if `head` has not wrapped around past `tail`. With every other
number of slots there are calls after which a value is not owned once. The slots of all positions
agree for the powers of two. -/
theorem slots_own_once {α : Type} [Nontrivial α] {N : ℕ} (hN : N < 2 ^ 64) :
    (∀ calls s results, (ringBuffer N α).Runs (SlotsAgree N) (Shared.new α) calls s results →
      DropAgrees N s → OwnedInOrder N s calls results) ∧
    (N = 0 ∨ PowerOfTwo N → ∀ calls s results,
      (ringBuffer N α).Runs (fun _ _ ↦ True) (Shared.new α) calls s results →
      (OwnedOnce N s calls results ↔ s.tail ≤ s.head) ∧
        (OwnedInOrder N s calls results ↔ s.tail ≤ s.head)) ∧
    ((∀ calls s results,
      (ringBuffer N α).Runs (fun _ _ ↦ True) (Shared.new α) calls s results →
      s.tail ≤ s.head → OwnedOnce N s calls results) ↔ N = 0 ∨ PowerOfTwo N) ∧
    (0 < N → ((∀ p, p < 2 ^ 64 → p &&& (N - 1) = p % N) ↔ PowerOfTwo N)) := by
  have hpowers (hpow : N = 0 ∨ PowerOfTwo N) (calls : List (Method α)) (s : Shared α)
      (results : List (Result α))
      (hruns : (ringBuffer N α).Runs (fun _ _ ↦ True) (Shared.new α) calls s results) :
      (OwnedOnce N s calls results ↔ s.tail ≤ s.head) ∧
        (OwnedInOrder N s calls results ↔ s.tail ≤ s.head) := by
    have hinOrder (hle : s.tail ≤ s.head) := ownedInOrder_of_le hN hpow hruns hle
    have hle := le_of_ownedOnce hN hpow hruns
    exact ⟨⟨hle, fun h ↦ .of_eq (hinOrder h)⟩, ⟨fun h ↦ hle (.of_eq h), hinOrder⟩⟩
  refine ⟨fun _ _ _ hruns hdrop ↦ ownedInOrder_of_agree hN hruns hdrop, hpowers, ⟨?_, ?_⟩,
    fun hpos ↦ slots_agree_iff hpos hN⟩
  · intro hall
    by_contra hnot
    obtain ⟨hzero, hpow⟩ := not_or.mp hnot
    obtain ⟨calls, s, results, hruns, hle, honce⟩ :=
      exists_not_ownedOnce (α := α) (Nat.pos_of_ne_zero hzero) hN hpow
    exact honce (hall calls s results hruns hle)
  · intro hpow calls s results hruns hle
    exact (hpowers hpow calls s results hruns).1.mpr hle

/-- `slots_own_once` with two slots, on a run in which the third push gets the slot that the pop has
emptied, and two values are left for `Drop`. -/
theorem slots_own_once_reused :
    ∃ s, (ringBuffer 2 ℕ).Runs (fun _ _ ↦ True) (Shared.new ℕ)
        [.push 7, .push 8, .pop, .tryPush 9] s
        [.pushed (.ok ()), .pushed (.ok ()), .popped (some (some 7)), .pushed (.ok ())] ∧
      dropped 2 s = [some 8, some 9] ∧
      OwnedInOrder 2 s [.push 7, .push 8, .pop, .tryPush 9]
        [.pushed (.ok ()), .pushed (.ok ()), .popped (some (some 7)), .pushed (.ok ())] := by
  have hpow : PowerOfTwo 2 := ⟨1, by decide, rfl⟩
  obtain ⟨s, hpushes, h, htail⟩ := holds_new.pushes hpow.lt [7, 8] (by decide)
  have hzero : s.tail = 0 := htail
  have hpop : CallAlone 2 s .pop (s.release (some 7)) (.popped (some (some 7))) :=
    ends_of_reaches (popWith_oldest true h hpow.lt (by rw [hzero]; rfl))
  have hleft : Holds 2 (s.release (some 7)) [8] := h.release (some 7)
  have hpush : CallAlone 2 (s.release (some 7)) (.tryPush 9) ((s.release (some 7)).store 2 9)
      (.pushed (.ok ())) :=
    ends_of_reaches (pushWith_room false 9 hleft hpow.lt (by decide))
  have hend : Holds 2 ((s.release (some 7)).store 2 9) [8, 9] :=
    hleft.store (by decide) (hleft.fresh hpow (by decide))
  have hlast : (ringBuffer 2 ℕ).Runs (fun _ _ ↦ True) s [.pop, .tryPush 9]
      ((s.release (some 7)).store 2 9) [.popped (some (some 7)), .pushed (.ok ())] :=
    .cons trivial hpop (.cons trivial hpush .nil)
  have hruns := hpushes.append hlast
  have htail' : ((s.release (some 7)).store 2 9).tail = 1 := by
    show addUsize s.tail 1 = 1
    rw [hzero]
    rfl
  have hle : ((s.release (some 7)).store 2 9).tail ≤ ((s.release (some 7)).store 2 9).head := by
    rw [hend.head, htail']
    decide
  have howned := ((slots_own_once hpow.lt).2.1 (.inr hpow) _ _ _ hruns).2.mpr hle
  have hleave : [some 7] ++ dropped 2 ((s.release (some 7)).store 2 9) =
      [some 7] ++ [some 8, some 9] := howned
  exact ⟨_, hruns, List.append_cancel_left hleave, howned⟩

/-- Six slots are accepted by `new`. After `push(10)`, `push(10)` and `push(11)` three pops return
`10` three times, and nobody gets `11`. -/
theorem value_popped_twice :
    6 % 2 = 0 ∧ ∃ s, (ringBuffer 6 ℕ).Runs (fun _ _ ↦ True) (Shared.new ℕ)
        [.push 10, .push 10, .push 11, .pop, .pop, .pop] s
        [.pushed (.ok ()), .pushed (.ok ()), .pushed (.ok ()), .popped (some (some 10)),
          .popped (some (some 10)), .popped (some (some 10))] ∧
      s.tail ≤ s.head ∧
      ¬ OwnedOnce 6 s [.push 10, .push 10, .push 11, .pop, .pop, .pop]
        [.pushed (.ok ()), .pushed (.ok ()), .pushed (.ok ()), .popped (some (some 10)),
          .popped (some (some 10)), .popped (some (some 10))] := by
  have hlap := popped_twice (N := 6) (p := 2) (by decide) (by decide) (by decide) (by decide)
    (10 : ℕ) 11
  obtain ⟨s, hruns, hempty⟩ := hlap
  exact ⟨rfl, s, hruns, hempty.ge, not_ownedOnce_lap (p := 2) (by decide) hempty⟩

end SyncPrimitives.RingBuffer
